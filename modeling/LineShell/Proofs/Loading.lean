import LineShell.Proofs.Chronicle

/-!
# How a process becomes a program

A process that is to become the program its arguments name looks for it in one step, and has then become
it, or has the words for what is missing. Where an argument holds a zero byte, it has the words for that,
and looks for nothing.

`System.hasTried_of_journaled` : every deed of this kind in the journal of a line comes from such a step,
of the process of a leaf and with the arguments there.
-/

namespace LineShell

open LineShell.System LineShell.Layout

variable {σ : Type} {c : Command} {D₀ D : Descriptors} {L : Layout} {J : Journal} {a : Address}
  {τ : Task σ} {s t u : System σ} {m : Machine σ} {pid q : Pid} {p : Process σ} {d : Deed}
  {es : List Deed} {program : Bytes} {arguments : List Bytes} {named : Option (List Bytes)}

/-- What a process has done about the arguments that it had : it has become their program, or that
could not be loaded, or an argument holds a zero byte. -/
inductive Loading : List Bytes → List Deed → Prop
  | empty : Loading [] []
  | balks {argv : List Bytes} (holds : argv.any (·.contains 0) = true) : Loading argv [.balks]
  | execs {argv : List Bytes} (free : argv.any (·.contains 0) = false) : Loading argv [.execs argv]
  | lacks {argv : List Bytes} {e : Errno} (free : argv.any (·.contains 0) = false) :
      Loading argv [.lacks e]

/-- A process that had arguments has done one thing about them. -/
theorem Loading.eq_singleton (h : Loading (program :: arguments) es) :
    ∃ d, es = [d] ∧ (d = .balks ↔ (program :: arguments).any (·.contains 0) = true) := by
  cases h with
  | balks holds => exact ⟨_, rfl, iff_of_true rfl holds⟩
  | execs free | lacks free =>
    exact ⟨_, rfl, iff_of_false (by simp) (by rw [free]; exact Bool.false_ne_true)⟩

namespace System

/-- What a process does that was to become the program its arguments name, in a step from `s` to `t` : it
becomes the program that is loaded for them, or it has the words for what is missing, or for a zero
byte. -/
inductive Tries (m : Machine σ) (s : System σ) (p : Process σ) (t : System σ) (pid : Pid)
    (program : Bytes) (arguments : List Bytes) : Deed → Prop
  | execs {state : σ} (loaded : m.load s.files (s.view p) (program :: arguments) = .ok state)
      (next : t.task? pid = some (.program state)) :
      Tries m s p t pid program arguments (.execs (program :: arguments))
  | lacks {e : Errno} (failed : m.load s.files (s.view p) (program :: arguments) = .error e)
      (next : t.task? pid = some (.complain (loadPieces program e) (exitCodeOf e))) :
      Tries m s p t pid program arguments (.lacks e)
  | balks (holds : (program :: arguments).any (·.contains 0) = true)
      (next : t.task? pid = some (.complain (zeroPieces program) 127)) :
      Tries m s p t pid program arguments .balks

/-- On the way from `s` to `t`, process `q` was to become the program its arguments name, and has done
this about it. -/
def HasTried (m : Machine σ) (s t : System σ) (q : Pid) (program : Bytes) (arguments : List Bytes)
    (d : Deed) : Prop :=
  ∃ u v p, Reachable m s u ∧ u.processes[q]? = some p ∧ p.task = .run (.exec (program :: arguments)) ∧
    u.step? m q = some v ∧ Tries m u p v q program arguments d ∧ Reachable m v t

/-! ## One step -/

/-- Only a process that is to become a program does anything about that. -/
theorem run_of_mem_deeds (h : d ∈ s.deeds m p named τ) (hd : d.isLoading = true) :
    ∃ program arguments, p.task = .run (.exec (program :: arguments)) ∧
      d ∈ s.loading m p program arguments named τ := by
  have hne : ∀ {e : Deed}, d ∈ [e] → e.isLoading = false → False := by
    rintro e he hfalse
    rw [← List.mem_singleton.mp he, hd] at hfalse
    cases hfalse
  unfold deeds at h
  split at h
  case h_7 program arguments htask => exact ⟨program, arguments, htask, h⟩
  case h_4 | h_5 | h_6 =>
    unfold reaping at h
    split at h
    · exact (hne h rfl).elim
    · cases h
  case h_11 =>
    unfold telling at h
    repeat' split at h
    all_goals first
      | exact (hne h rfl).elim
      | cases h
  all_goals
    repeat' split at h
    all_goals first
      | exact (hne h rfl).elim
      | cases h

/-- A process that was to become a program does what is noted of it. -/
theorem Turn.tries (ht : Turn m s p τ D) (hstep : s.step? m pid = some t)
    (hp : s.processes[pid]? = some p) (hw : t.work pid = some (τ, D))
    (htask : p.task = .run (.exec (program :: arguments)))
    (hmem : d ∈ s.loading m p program arguments (t.arguments? pid) τ) :
    Tries m s p t pid program arguments d := by
  obtain ⟨q, hq, hτ, -⟩ := work_eq_some_iff.mp hw
  have hnext : t.task? pid = some τ := by rw [task?, hq, Option.map_some, hτ]
  cases ht with
  | refuses task why =>
    obtain ⟨rfl, rfl⟩ := List.cons.inj (Command.exec.inj (Task.run.inj (htask.symm.trans task)))
    cases why with
    | zero holds =>
      rw [loading, if_pos holds, if_pos ⟨rfl, rfl⟩] at hmem
      obtain rfl := List.mem_singleton.mp hmem
      exact .balks holds hnext
    | load free failed =>
      rw [loading, if_neg (by rw [free]; exact Bool.false_ne_true), failed] at hmem
      dsimp only at hmem
      rw [if_pos ⟨rfl, rfl⟩] at hmem
      obtain rfl := List.mem_singleton.mp hmem
      exact .lacks failed hnext
  | loads task free loaded =>
    obtain ⟨rfl, rfl⟩ := List.cons.inj (Command.exec.inj (Task.run.inj (htask.symm.trans task)))
    rw [loading, arguments?_of_loads hstep hp task hw] at hmem
    obtain rfl := List.mem_singleton.mp hmem
    exact .execs loaded hnext
  | _ task =>
    rw [htask] at task
    cases task

/-- What is noted of this is what the step has done. -/
theorem tries_of_mem_happens (hstep : s.step? m pid = some t) (hp : s.processes[pid]? = some p)
    (h : d ∈ happens m s t pid) (hd : d.isLoading = true) :
    ∃ program arguments, p.task = .run (.exec (program :: arguments)) ∧
      Tries m s p t pid program arguments d := by
  obtain ⟨p', hp', hm⟩ := move_of_step? hstep
  obtain rfl := Option.some.inj (hp.symm.trans hp')
  have hrun : ∀ {τ D}, t.work pid = some (τ, D) → ∃ program arguments,
      p.task = .run (.exec (program :: arguments)) ∧
        d ∈ s.loading m p program arguments (t.arguments? pid) τ := by
    intro τ D hw
    rw [happens_eq hp hw] at h
    exact run_of_mem_deeds h hd
  cases hm with
  | turn τ D ht kept work size made =>
    obtain ⟨program, arguments, htask, hmem⟩ := hrun (work_of_update work)
    exact ⟨program, arguments, htask, ht.tries hstep hp (work_of_update work) htask hmem⟩
  -- who makes a process, or has waited for one, is not to become a program
  | fork child next hf kept work size =>
    obtain ⟨program, arguments, htask, -⟩ := hrun (work_of_update work)
    rw [htask] at hf
    cases hf
  | resume child e D' D τ ended hr kept work size =>
    obtain ⟨program, arguments, htask, -⟩ := hrun (work_of_update work)
    rw [htask] at hr
    cases hr

/-! ## A run -/

theorem HasTried.step (h : HasTried m s t q program arguments d) (hstep : t.step? m pid = some u) :
    HasTried m s u q program arguments d := by
  obtain ⟨v, w, p, hv, hp, htask, hw, htries, ht⟩ := h
  exact ⟨v, w, p, hv, hp, htask, hw, htries, .step ht ⟨pid, hstep⟩⟩

/-- What is noted of this is done by the process of a leaf, with the arguments there. -/
theorem hasTried_of_journaled (hs : s.Idle D₀)
    (hJ : Journaled m (s.setShellTask (.execute c)) t L J) (hmem : (q, d) ∈ J)
    (hd : d.isLoading = true) :
    ∃ a program arguments, L.place q = some a ∧ c.core? a = some (.exec (program :: arguments)) ∧
      HasTried m (s.setShellTask (.execute c)) t q program arguments d := by
  induction hJ with
  | start => cases hmem
  | @step u v L J pid hprev hstep ih =>
    have h := chronicle_of_journaled hs hprev
    rcases Journal.mem_note_iff.mp hmem with hold | ⟨rfl, hnew⟩
    · obtain ⟨a, program, arguments, hq, core, tried⟩ := ih hold
      exact ⟨a, program, arguments, h.place_after hstep q a hq, core, tried.step hstep⟩
    · obtain ⟨p, hp, -⟩ := move_of_step? hstep
      obtain ⟨program, arguments, htask, tries⟩ := tries_of_mem_happens hstep hp hnew hd
      have hw := work_of_getElem? hp
      rw [htask] at hw
      obtain ⟨a, hq, -⟩ :=
        h.arranged.exists_stage hw (by rintro ⟨e, h | h⟩ <;> cases h) (by rintro ⟨⟩)
      exact ⟨a, program, arguments, h.place_after hstep _ a hq,
        (h.story _ a _ _ hq hw).core_of_run_exec.1, u, v, p, hprev.traced.reachable, hp, htask, hstep,
        tries, .refl⟩

/-- What is noted of this at a leaf is done with the arguments of the leaf. -/
theorem hasTried_of_mem_doneAt (hs : s.Idle D₀)
    (hJ : Journaled m (s.setShellTask (.execute c)) t L J)
    (core : c.core? a = some (.exec (program :: arguments))) (hmem : d ∈ J.doneAt L a)
    (hd : d.isLoading = true) :
    ∃ q, L.place q = some a ∧ HasTried m (s.setShellTask (.execute c)) t q program arguments d := by
  obtain ⟨q, hq, hmem⟩ := Journal.mem_doneAt_iff.mp hmem
  obtain ⟨a', program', arguments', hq', core', tried⟩ := hasTried_of_journaled hs hJ hmem hd
  obtain rfl := Option.some.inj (hq.symm.trans hq')
  obtain ⟨rfl, rfl⟩ := List.cons.inj (Command.exec.inj (Option.some.inj (core'.symm.trans core)))
  exact ⟨q, hq, tried⟩

end System

end LineShell
