import LineShell.Proofs.Execution
import Mathlib.Data.List.Basic

/-!
# The journal of a run

A `Deed` is what a step of a process does, as far as it matters to others : it makes a process
or has waited for one, it does a redirection or gives it up, it becomes a program or fails to, it
ends, or it writes of a message. `System.happens` are the deeds of a step, by what the process is
before and behind it, and `Journaled` holds of the states to which steps lead, each with its `Layout`
and the journal of all deeds on the way.
`Journal.of` is what one process has done, and `Journal.doneAt` what the process of a place has done.
-/

namespace LineShell

variable {σ : Type}

/-- What a step of a process does. -/
inductive Deed where
  /-- It makes a process. -/
  | forks (child : Pid)
  /-- It has waited for a process, which ended so. -/
  | reaps (child : Pid) (e : Ending)
  /-- It opens the file of a redirection. -/
  | opens (r : Redirection)
  /-- It puts the file in the place of the descriptor. -/
  | places (r : Redirection)
  /-- It gives a redirection up. -/
  | refuses (r : Redirection)
  /-- It can make no pipe. -/
  | lacksPipe
  /-- It becomes the program that the arguments name. -/
  | execs (argv : List Bytes)
  /-- It was to become a program, and that cannot be loaded. -/
  | lacks (e : Errno)
  /-- An argument holds a zero byte, and no program is looked for. -/
  | balks
  /-- It ends as a program. -/
  | ends (e : Ending)
  /-- Descriptor 2 takes bytes of its message. -/
  | prints (data : Bytes)
  /-- Descriptor 2 refuses the rest of its message. -/
  | mutes (e : Errno)
  /-- Nobody can read the rest of its message. -/
  | breaks
deriving DecidableEq, Repr

/-- The process becomes a program, or does not though it was to. -/
def Deed.isLoading : Deed → Bool
  | .execs _ | .lacks _ | .balks => true
  | _ => false

/-- The process has a message to write. -/
def Task.complains : Task σ → Bool
  | .complain _ _ => true
  | _ => false

namespace System

/-- The deed of having waited for a process. -/
def reaping (s : System σ) (child : Pid) : List Deed :=
  match s.task? child with
  | some (.ended e) => [.reaps child e]
  | _ => []

/-- The arguments of the program that a process has become. -/
def arguments? (s : System σ) (pid : Pid) : Option (List Bytes) :=
  s.processes[pid]?.bind Process.arguments

/-- The deeds of a step in which process `p` is to become the program that the arguments name, and
which leaves it with the task `τ` and as the program named by `named` : it has become that, or it has
the words for what is missing. -/
def loading (m : Machine σ) (s : System σ) (p : Process σ) (program : Bytes)
    (arguments : List Bytes) (named : Option (List Bytes)) : Task σ → List Deed
  | .program _ => named.toList.map .execs
  | .complain pieces code =>
    if (program :: arguments).any (·.contains 0) then
      if pieces = zeroPieces program ∧ code = 127 then [.balks] else []
    else match m.load s.files (s.view p) (program :: arguments) with
      | .error e => if pieces = loadPieces program e ∧ code = exitCodeOf e then [.lacks e] else []
      | .ok _ => []
  | _ => []

/-- The deeds of writing of a message. -/
def telling (s : System σ) (p : Process σ) : List Bytes → List Deed
  | [] => []
  | piece :: _ =>
    match s.tell p piece with
    | .answer (.ok n) _ => [.prints (piece.take n)]
    | .answer (.error e) _ => [.mutes e]
    | .broken => [.breaks]
    | .wait => []

/-- The deeds of a step that leaves process `p` with the task `τ`, and as the program named by
`named` if it is one. -/
def deeds (m : Machine σ) (s : System σ) (p : Process σ) (named : Option (List Bytes))
    (τ : Task σ) : List Deed :=
  match p.task with
  | .execute c => if c.isNoop then [] else [.forks s.processes.size]
  | .forkLeft _ _ _ _ => [.forks s.processes.size]
  | .forkRight _ _ _ => [.forks s.processes.size]
  | .awaitLine child => s.reaping child
  | .awaitLeft child _ => s.reaping child
  | .awaitRight child => s.reaping child
  | .run (.exec (program :: arguments)) => s.loading m p program arguments named τ
  | .run (.pipe _ _) => if τ.complains then [.lacksPipe] else []
  | .open_ (r :: _) _ => if τ.complains then [.refuses r] else [.opens r]
  | .install _ r _ _ => if τ.complains then [.refuses r] else [.places r]
  | .complain pieces _ => s.telling p pieces
  | .program _ =>
    match τ with
    | .ended e => [.ends e]
    | _ => []
  | _ => []

/-- The deeds of a step of process `pid` that leads from `s` to `t`. -/
def happens (m : Machine σ) (s t : System σ) (pid : Pid) : List Deed :=
  match s.processes[pid]?, t.task? pid with
  | some p, some τ => s.deeds m p (t.arguments? pid) τ
  | _, _ => []

end System

/-- Deeds, each with the process whose step it was of, the first of them first. -/
abbrev Journal := List (Pid × Deed)

namespace Journal

/-- What a process has done. -/
def of (J : Journal) (q : Pid) : List Deed :=
  J.filterMap fun e => if e.1 = q then some e.2 else none

/-- What the process of a place has done. -/
def doneAt (J : Journal) (L : Layout) (a : Address) : List Deed :=
  J.filterMap fun e => if L.place e.1 = some a then some e.2 else none

/-- The journal with the deeds of one more step. -/
def note (J : Journal) (pid : Pid) (es : List Deed) : Journal :=
  J ++ es.map (pid, ·)

variable {J : Journal} {q pid : Pid} {e : Deed} {es : List Deed}

theorem mem_of_iff : e ∈ J.of q ↔ (q, e) ∈ J := by
  simp [of]

theorem mem_note_iff {x : Pid × Deed} : x ∈ J.note pid es ↔ x ∈ J ∨ x.1 = pid ∧ x.2 ∈ es := by
  obtain ⟨q, e⟩ := x
  rw [note, List.mem_append, List.mem_map]
  refine or_congr_right ⟨?_, ?_⟩
  · rintro ⟨e', he', heq⟩
    obtain ⟨rfl, rfl⟩ := Prod.mk.inj heq
    exact ⟨rfl, he'⟩
  · rintro ⟨rfl, he⟩
    exact ⟨e, he, rfl⟩

theorem of_note_self (J : Journal) (pid : Pid) (es : List Deed) :
    (J.note pid es).of pid = J.of pid ++ es := by
  simp [of, note, List.filterMap_map]

theorem of_note_of_ne (J : Journal) (es : List Deed) (h : q ≠ pid) :
    (J.note pid es).of q = J.of q := by
  simp [of, note, List.filterMap_map, h.symm]

theorem not_mem_of_all (h : J.all (fun x => x.2 ≠ e) = true) (q : Pid) : (q, e) ∉ J := by
  intro hq
  simpa using List.all_eq_true.mp h _ hq

theorem not_mem_of (h : ∀ q, (q, e) ∉ J) (q : Pid) : e ∉ J.of q := fun he => h q (mem_of_iff.mp he)

theorem mem_doneAt_iff {L : Layout} {a : Address} :
    e ∈ J.doneAt L a ↔ ∃ q, L.place q = some a ∧ (q, e) ∈ J := by
  simp only [doneAt, List.mem_filterMap, Option.ite_none_right_eq_some, Option.some.injEq]
  constructor
  · rintro ⟨⟨q, e'⟩, hmem, hq, rfl⟩
    exact ⟨q, hq, hmem⟩
  · rintro ⟨q, hq, hmem⟩
    exact ⟨(q, e), hmem, hq, rfl⟩

/-- The process of a place has done all that was done at the place. -/
theorem doneAt_eq_of {L : Layout} {a : Address} (hq : L.place q = some a)
    (hinj : ∀ r, L.place r = some a → r = q) : J.doneAt L a = J.of q := by
  refine List.filterMap_congr fun x _ => ?_
  by_cases hx : x.1 = q
  · rw [if_pos hx, if_pos (hx ▸ hq)]
  · rw [if_neg hx, if_neg fun h => hx (hinj _ h)]

end Journal

namespace System

/-- The states to which steps lead, with what is known of them and all that happened. -/
inductive Journaled (m : Machine σ) (s : System σ) : System σ → Layout → Journal → Prop
  | start : Journaled m s s {} []
  | step {t u : System σ} {L : Layout} {J : Journal} {pid : Pid} :
      Journaled m s t L J → t.step? m pid = some u →
        Journaled m s u (L.after u pid) (J.note pid (happens m t u pid))

variable {m : Machine σ} {s t u : System σ} {L : Layout} {J : Journal} {pid q : Pid} {p : Process σ}
  {τ : Task σ} {D : Descriptors} {e : Ending}

theorem Journaled.traced (h : Journaled m s t L J) : Traced m s t L := by
  induction h with
  | start => exact .start
  | step _ hstep ih => exact .step ih hstep

theorem Traced.journaled (h : Traced m s t L) : ∃ J, Journaled m s t L J := by
  induction h with
  | start => exact ⟨_, .start⟩
  | step _ hstep ih =>
    obtain ⟨J, hJ⟩ := ih
    exact ⟨_, .step hJ hstep⟩

/-- What can come about can be journaled. -/
theorem exists_journaled (h : Reachable m s t) : ∃ L J, Journaled m s t L J := by
  obtain ⟨L, hL⟩ := exists_traced h
  exact ⟨L, hL.journaled⟩

theorem happens_eq (hp : s.processes[pid]? = some p) (hw : t.work pid = some (τ, D)) :
    happens m s t pid = s.deeds m p (t.arguments? pid) τ := by
  obtain ⟨p', hp', rfl, -⟩ := work_eq_some_iff.mp hw
  rw [happens, hp, task?, hp', Option.map_some]

theorem isLoading_of_mem_loading {program : Bytes} {arguments : List Bytes}
    {named : Option (List Bytes)} {d : Deed} (h : d ∈ s.loading m p program arguments named τ) :
    d.isLoading = true := by
  unfold loading at h
  split at h
  · obtain ⟨argv, -, rfl⟩ := List.mem_map.mp h
    rfl
  · split at h
    · obtain rfl := List.mem_singleton.mp (List.mem_ite_nil_right.mp h).2
      rfl
    split at h
    · obtain rfl := List.mem_singleton.mp (List.mem_ite_nil_right.mp h).2
      rfl
    · cases h
  · cases h

/-- Who becomes a program has the arguments for it. -/
theorem arguments?_of_loads {program : Bytes} {arguments : List Bytes} {state : σ}
    (h : s.step? m pid = some t) (hp : s.processes[pid]? = some p)
    (ht : p.task = .run (.exec (program :: arguments)))
    (hw : t.work pid = some (.program state, D)) : t.arguments? pid = some (program :: arguments) := by
  obtain ⟨q, hq, hτ, -⟩ := work_eq_some_iff.mp hw
  have hself : ∀ r : Process σ, (s.setProcess pid r).processes[pid]? = some r := fun r =>
    Array.getElem?_setIfInBounds_self_of_lt (lt_of_getElem? hp)
  simp only [step?, hp, ht, runStep, becomeProgram, Option.some.injEq] at h
  have hfail : ∀ pieces code, s.fail pid p pieces code ≠ t := by
    rintro pieces code rfl
    obtain rfl := Option.some.inj ((hself _).symm.trans hq)
    cases hτ
  split at h
  · exact absurd h (hfail _ _)
  split at h
  · exact absurd h (hfail _ _)
  · subst h
    rw [System.arguments?, hself]
    rfl

theorem reaping_eq (hq : s.work q = some (.ended e, D)) : s.reaping q = [.reaps q e] := by
  obtain ⟨p, hp, ht, -⟩ := work_eq_some_iff.mp hq
  rw [reaping, task?, hp, Option.map_some, ht]

/-! ## The journal of a list of steps -/

/-- What is known, and what happened, after steps of the processes in the list. -/
def journal (m : Machine σ) : List Pid → System σ → Layout × Journal → Layout × Journal
  | [], _, r => r
  | pid :: pids, s, (L, J) =>
    match s.step? m pid with
    | some t => journal m pids t (L.after t pid, J.note pid (happens m s t pid))
    | none => (L, J)

theorem journaled_of_steps {pids : List Pid} (h : Journaled m s t L J)
    (hsteps : steps m pids t = some u) :
    Journaled m s u (journal m pids t (L, J)).1 (journal m pids t (L, J)).2 := by
  induction pids generalizing t L J with
  | nil =>
    obtain rfl := Option.some.inj hsteps
    exact h
  | cons pid pids ih =>
    obtain ⟨v, hv, hu⟩ := Option.bind_eq_some_iff.mp hsteps
    rw [journal, hv]
    exact ih (.step h hv) hu

end System

end LineShell
