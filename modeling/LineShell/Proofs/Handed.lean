import LineShell.Proofs.Progress

/-!
# Who is handed an end of a pipe

The process on a side of a pipe has the end for that side as descriptor 0 or 1. It hands the end
down : to the program it becomes, or, if it is the process of a pipe itself, to the side of that pipe
which does not get the descriptor from there. `Command.Handed` says which places begin with an end,
and `Command.Keeps` which of them still have it after their redirections.

The process of a pipe closes both ends of its own pipe before it waits. An end that it was handed
it keeps while it waits, and as long as it does, the pipe is not broken for those who write to it
(`System.ends_handed`).
-/

namespace LineShell

open LineShell.System LineShell.Layout

variable {σ : Type} {c : Command} {D₀ D D' : Descriptors} {S T : Table} {L L' : Layout} {J : Journal}
  {a b : Address} {τ : Task σ} {s t : System σ} {m : Machine σ} {pid q : Pid} {p : Process σ}
  {d : Side} {i n n₀ x : Nat} {k : Handle} {o : Stream}

/-- The other side. -/
def Side.other : Side → Side
  | .left => .right
  | .right => .left

theorem Side.eq_other_of_target_ne {e : Side} (h : d.target ≠ e.target) : e = d.other := by
  cases d <;> cases e <;> first | rfl | exact absurd rfl h

theorem Side.target_ne_other (d : Side) : d.target ≠ d.other.target := by
  cases d <;> decide

/-! ## The places that are handed an end -/

namespace Command

/-- No redirection at a place takes the descriptor for a side. -/
def Spares (c : Command) (d : Side) (a : Address) : Prop :=
  ∀ r ∈ c.redirectionsAt a, r.descriptor.toNat ≠ d.target

/-- A place begins with the end, for side `d`, of the pipe at place `b`. -/
inductive Handed (c : Command) (d : Side) (b : Address) : Address → Prop
  | attached : Handed c d b (d :: b)
  | passed {a : Address} (above : Handed c d b a) (spares : c.Spares d a) :
      Handed c d b (d.other :: a)

/-- A place begins with an end, and has it after its redirections. -/
def Keeps (c : Command) (d : Side) (b a : Address) : Prop := c.Handed d b a ∧ c.Spares d a

theorem Handed.suffix (h : c.Handed d b a) : d :: b <:+ a := by
  induction h with
  | attached => exact List.suffix_refl _
  | passed above spares ih => exact ih.trans (List.suffix_cons _ _)

/-- The place of a pipe is not handed the ends of that pipe. -/
theorem not_handed_self (c : Command) (d : Side) (a : Address) : ¬c.Handed d a a :=
  fun h => ne_of_cons_suffix h.suffix rfl

/-- A program on a side of a pipe is all that is handed the end. -/
theorem Handed.eq_of_core {argv : List Bytes} {k : Command} (h : c.Handed d b a)
    (core : c.core? (d :: b) = some (.exec argv)) (hk : c.core? a = some k) : a = d :: b := by
  induction h generalizing k with
  | attached => rfl
  | passed above spares ih =>
    obtain ⟨left, right, hpipe⟩ := core?_of_cons hk
    rw [ih hpipe, core] at hpipe
    cases hpipe

end Command

/-! ## The ends in a table -/

/-- A stream that is no end of a pipe with a number from `n₀` on. -/
def Stream.IsForeign (n₀ : Nat) (o : Stream) : Prop := ∀ d i, o = Side.stream d i → i < n₀

theorem Stream.IsFile.isForeign (h : o.IsFile) : o.IsForeign n₀ := by
  rintro d i rfl
  exact absurd h (d.not_isFile i)

/-- A stream under number `x` that is no end of a pipe of the line, or one of those of which `P`
is true, in its place. -/
def Layout.Hands (L : Layout) (n₀ : Nat) (P : Side → Address → Prop) (x : Nat) (o : Stream) : Prop :=
  o.IsForeign n₀ ∨ ∃ d b i, x = d.target ∧ P d b ∧ L.pipe b = some i ∧ o = d.stream i

theorem Layout.Hands.mono {P Q : Side → Address → Prop} (h : L.Hands n₀ P x o)
    (hPQ : ∀ d b, P d b → Q d b) : L.Hands n₀ Q x o :=
  h.imp_right fun ⟨d, b, i, hx, hP, hi, ho⟩ => ⟨d, b, i, hx, hPQ d b hP, hi, ho⟩

theorem Layout.Hands.of_agrees {P : Side → Address → Prop} (h : L.Hands n₀ P x o)
    (hP : ∀ d b, P d b → d :: b <:+ a) (hL : L.Agrees L' a) : L'.Hands n₀ P x o :=
  h.imp_right fun ⟨d, b, i, hx, hPd, hi, ho⟩ =>
    ⟨d, b, i, hx, hPd, (hL.above d b (hP d b hPd)).1.trans hi, ho⟩

theorem redirected_of_ne {rs : List (Redirection × Stream)}
    (h : ∀ r ∈ rs, r.1.descriptor.toNat ≠ x) : redirected rs T x = T x := by
  induction rs generalizing T with
  | nil => rfl
  | cons r rs ih =>
    obtain ⟨hr, hrs⟩ := List.forall_mem_cons.mp h
    rw [redirected, List.foldl_cons, ← redirected, ih hrs, Function.update_of_ne hr.symm]

/-- The place of an end in the wiring. -/
theorem wiring_of_keeps (h : c.Keeps d b a) (hi : L.pipe b = some i) :
    L.wiring c T a d.target = some ⟨d.stream i, false⟩ := by
  have hwiring : ∀ {a}, c.Spares d a → L.wiring c T a d.target = L.entry c T a d.target :=
    fun hspares => redirected_of_ne fun r hr => hspares r.1 (List.of_mem_zip hr).1
  obtain ⟨hhanded, hspares⟩ := h
  rw [hwiring hspares]
  clear hspares
  induction hhanded with
  | attached => rw [entry_cons, Function.update_self, hi, Option.map_some]
  | passed above hspares ih =>
    rw [entry_cons, Function.update_of_ne d.target_ne_other, hwiring hspares, ih]

/-- The table of a place with some files in place, from that with which it begins. -/
theorem hands_of_part {P : Side → Address → Prop} {rs : List Redirection} {os : List Stream}
    (hos : ∀ o ∈ os, o.IsFile) (hentry : ∀ x k, S x = some k → L.Hands n₀ P x k.stream)
    (hk : redirected (rs.zip os) S x = some k) : L.Hands n₀ P x k.stream := by
  rcases redirected_cases hk with ⟨hS, -⟩ | ⟨⟨r, o⟩, hmem, heq⟩
  · exact hentry x k hS
  · rw [heq]
    exact .inl (hos o (List.of_mem_zip hmem).2).isForeign

section

variable (hT : ∀ x k, T x = some k → k.stream.IsForeign n₀) (ho : ∀ a, ∀ o ∈ L.opened a, o.IsFile)

/-- The table of a place with all files in place, from that with which it begins. -/
theorem hands_of_redirected {os : List Stream} (hos : ∀ o ∈ os, o.IsFile)
    (hlength : (c.redirectionsAt a).length = os.length)
    (hentry : ∀ x k, S x = some k → L.Hands n₀ (c.Handed · · a) x k.stream)
    (hk : redirected ((c.redirectionsAt a).zip os) S x = some k) :
    L.Hands n₀ (c.Keeps · · a) x k.stream := by
  rcases redirected_cases hk with ⟨hS, hne⟩ | ⟨⟨r, o⟩, hmem, heq⟩
  · refine (hentry x k hS).imp_right ?_
    rintro ⟨d, b, i, rfl, hhanded, hi, hs⟩
    refine ⟨d, b, i, rfl, ⟨hhanded, fun r hr => ?_⟩, hi, hs⟩
    rw [← List.map_fst_zip (Nat.le_of_eq hlength)] at hr
    obtain ⟨ro, hro, rfl⟩ := List.mem_map.mp hr
    exact hne ro hro
  · rw [heq]
    exact .inl (hos o (List.of_mem_zip hmem).2).isForeign

include hT ho

/-- The ends in the table with which a place begins. -/
theorem hands_entry
    (habove : ∀ e a', e :: a' <:+ a → (c.redirectionsAt a').length = (L.opened a').length)
    (hk : L.entry c T a x = some k) : L.Hands n₀ (c.Handed · · a) x k.stream := by
  induction a generalizing x k with
  | nil => exact .inl (hT x k hk)
  | cons e a ih =>
    rw [entry_cons, Function.update_apply] at hk
    split at hk
    · rename_i hx
      obtain ⟨i, hi, rfl⟩ := Option.map_eq_some_iff.mp hk
      exact .inr ⟨e, a, i, hx, .attached, hi, rfl⟩
    · rename_i hx
      have hkeeps := hands_of_redirected (ho a) (habove e a (List.suffix_refl _))
        (fun x k hk => ih (fun e' a' hs => habove e' a' (hs.trans (List.suffix_cons e a))) hk) hk
      refine hkeeps.imp_right ?_
      rintro ⟨d, b, i, rfl, ⟨hhanded, hspares⟩, hi, hs⟩
      obtain rfl := Side.eq_other_of_target_ne hx
      exact ⟨d, b, i, rfl, .passed hhanded hspares, hi, hs⟩

/-- The ends in the wiring of a place, as far as that has come. -/
theorem hands_wiring
    (habove : ∀ e a', e :: a' <:+ a → (c.redirectionsAt a').length = (L.opened a').length)
    (hk : L.wiring c T a x = some k) : L.Hands n₀ (c.Handed · · a) x k.stream :=
  hands_of_part (ho a) (fun _ _ => hands_entry hT ho habove) hk

end

/-! ## The ends that a process has -/

/-- Which ends of pipes a process has that has come through its redirections, or that fails. A process
that has ended has no descriptors. -/
def Owns (c : Command) (L : Layout) (n₀ : Nat) (a : Address) : Task σ → Descriptors → Prop
  | .complain _ _, D => ∀ x k, D.get? x = some k → L.Hands n₀ (c.Handed · · a) x k.stream
  | .program _, D => ∀ x k, D.get? x = some k → L.Hands n₀ (c.Keeps · · a) x k.stream
  | .ended _, D => ∀ x, D.get? x = none
  | .reaped _, D => ∀ x, D.get? x = none
  | _, _ => True

/-- Only below a pipe of the command are there processes. -/
def Layout.Branching (c : Command) (L : Layout) : Prop :=
  ∀ q d a, L.place q = some (d :: a) → ∃ left right, c.core? a = some (.pipe left right)

theorem Layout.Branching.of_grows (h : L.Branching c) (hg : L.Grows c s t pid L') :
    L'.Branching c := by
  intro q d a hq
  cases hg with
  | same | pipe | opened => exact h q d a hq
  | line =>
    rw [place_enter, Function.update_apply] at hq
    split at hq
    · cases hq
    · exact h q d a hq
  | side place splits =>
    rw [place_enter, Function.update_apply] at hq
    split at hq
    · obtain ⟨-, rfl⟩ := List.cons.inj (Option.some.inj hq)
      obtain ⟨k, hk, hpipe, -⟩ := splits.part
      exact ⟨_, _, hpipe ▸ Command.core?_eq hk⟩
    · exact h q d a hq

/-- The pipes of the line have the numbers from `n₀` on, only files have been opened, and every process
has none but the ends that were handed down to it. -/
structure Handing (c : Command) (n₀ : Nat) (L : Layout) (s : System σ) : Prop where
  plain : s.files.Plain
  opened : ∀ a, ∀ o ∈ L.opened a, o.IsFile
  allOpened : L.AllOpened c
  branching : L.Branching c
  piped : L.Piped s
  size : n₀ ≤ s.pipes.size
  first : ∀ b i, L.pipe b = some i → n₀ ≤ i
  owns : ∀ q a τ D, L.place q = some a → s.work q = some (τ, D) → Owns c L n₀ a τ D

theorem Owns.of_agrees (h : Owns c L n₀ a τ D) (hL : L.Agrees L' a) : Owns c L' n₀ a τ D := by
  cases τ with
  | complain pieces code =>
    exact fun x k hk => (h x k hk).of_agrees (fun d b hd => hd.suffix) hL
  | program state =>
    exact fun x k hk => (h x k hk).of_agrees (fun d b hd => hd.1.suffix) hL
  | ended e => exact h
  | reaped e => exact h
  | _ => trivial

theorem Layout.first_of_grows (h : ∀ b i, L.pipe b = some i → n₀ ≤ i) (hsize : n₀ ≤ s.pipes.size)
    (hg : L.Grows c s t pid L') (hi : L'.pipe b = some i) : n₀ ≤ i := by
  cases hg with
  | same | line | side | opened => exact h b i hi
  | pipe place childless lt =>
    rw [make] at hi
    dsimp only at hi
    rw [Function.update_apply] at hi
    split at hi
    · exact Option.some.inj hi ▸ hsize
    · exact h b i hi

section

variable (h : Chronicle m c D₀ n L J s) (hh : Handing c n₀ L s)
  (hD₀ : ∀ x k, D₀.get? x = some k → k.stream.IsForeign n₀)
include h hh hD₀

/-- Above a process, all redirections have been opened. -/
theorem Handing.hands_wiring (hq : L.place q = some a) (hk : L.wiring c D₀.get? a x = some k) :
    L.Hands n₀ (c.Handed · · a) x k.stream :=
  LineShell.hands_wiring hD₀ hh.opened (fun e a' hs => by
    obtain ⟨r, hr⟩ := h.arranged.exists_place_of_suffix hq hs
    exact hh.allOpened r e a' hr) hk

theorem Handing.hands_entry (hq : L.place q = some a) (hk : L.entry c D₀.get? a x = some k) :
    L.Hands n₀ (c.Handed · · a) x k.stream :=
  LineShell.hands_entry hD₀ hh.opened (fun e a' hs => by
    obtain ⟨r, hr⟩ := h.arranged.exists_place_of_suffix hq hs
    exact hh.allOpened r e a' hr) hk

/-- What a place keeps when all its redirections have been opened. -/
theorem Handing.keeps_wiring (hq : L.place q = some a)
    (hlength : (c.redirectionsAt a).length = (L.opened a).length)
    (hk : L.wiring c D₀.get? a x = some k) : L.Hands n₀ (c.Keeps · · a) x k.stream :=
  hands_of_redirected (hh.opened a) hlength (fun _ _ => hh.hands_entry h hD₀ hq) hk

/-- A process of a place that goes on alone. -/
theorem Handing.owns_turn (hp : s.processes[pid]? = some p) (hpid : L.place pid = some a)
    (ht : Turn m s p τ D) : Owns c (L.note a τ D) n₀ a τ D := by
  have hs := h.arranged.stage pid a _ _ hpid (work_of_getElem? hp)
  have hown := hh.owns pid a _ _ hpid (work_of_getElem? hp)
  have hwiring : ∀ x k, L.wiring c D₀.get? a x = some k → L.Hands n₀ (c.Handed · · a) x k.stream :=
    fun _ _ => hh.hands_wiring h hD₀ hpid
  cases ht with
  | skips | unwraps | pipes | settles | opens | installs | closesWriting | closesReading | leaves
  | attaches => trivial
  | exits | hushes | ends => exact fun _ => rfl
  | refuses task | lacksPipe task =>
    rw [task] at hs
    cases hs with
    | run part rest opened childless table => exact fun x k hk => hwiring x k (table ▸ hk)
  | loads task =>
    rw [task] at hs
    cases hs with
    | run part rest opened childless table =>
      have hlength : (c.redirectionsAt a).length = (L.opened a).length := by
        rw [Command.redirectionsAt_eq part, rest, ← opened]
        exact congrArg List.length (List.append_nil _)
      intro x k hk
      rw [Descriptors.get?_acrossExec, Option.filter_eq_some_iff] at hk
      exact hh.keeps_wiring h hD₀ hpid hlength (table ▸ hk.1)
  | lacksFile task =>
    rw [task] at hs
    cases hs with
    | open_ part rest opened childless table => exact fun x k hk => hwiring x k (table ▸ hk)
  | misplaces task =>
    rw [task] at hs
    cases hs with
    | install part rest opened length childless free table =>
      intro x k hk
      rw [Descriptors.get?_close_fresh table free] at hk
      refine hands_of_part (fun o ho => hh.opened a o ?_) (fun _ _ => hh.hands_entry h hD₀ hpid) hk
      rw [opened]
      exact List.mem_append_left _ ho
  | misattaches task failed => exact absurd failed (h.attaches hp hpid task)
  | complains task | goesOn task =>
    rw [task] at hown
    exact hown
  | closes task =>
    rw [task] at hown
    intro x k hk
    rw [Descriptors.get?_close] at hk
    split at hk
    · cases hk
    · exact hown x k hk
  | adds task opened =>
    rw [task] at hown
    intro x k hk
    rw [Descriptors.get?_set] at hk
    split at hk
    · obtain rfl := Option.some.inj hk
      exact .inl (Stream.IsFile.isForeign (openStream_plain hh.plain opened).1)
    · exact hown x k hk

/-- A process that has waited for another. -/
theorem Handing.owns_resumes {e : Ending} (hp : s.processes[pid]? = some p)
    (hpid : L.place pid = some a) (hr : Resumes p.descriptors q e p.task τ D) :
    Owns c L n₀ a τ D := by
  have hs := h.arranged.stage pid a _ _ hpid (work_of_getElem? hp)
  have hwiring : ∀ x k, L.wiring c D₀.get? a x = some k → L.Hands n₀ (c.Handed · · a) x k.stream :=
    fun _ _ => hh.hands_wiring h hD₀ hpid
  generalize p.task = τ' at hs hr
  cases hr with
  | line | left => trivial
  | right => exact fun _ => rfl
  | losesLeft =>
    cases hs with
    | awaitLeft splits placed placedRight table => exact fun x k hk => hwiring x k (table ▸ hk)
  | losesRight =>
    cases hs with
    | awaitRight splits placedRight table => exact fun x k hk => hwiring x k (table ▸ hk)

/-- The process of a step has none but the ends that were handed down to it. -/
theorem Handing.owns_of_step (hstep : s.step? m pid = some t) (hpid : L.place pid = some a)
    (hw : t.work pid = some (τ, D)) : Owns c (L.after t pid) n₀ a τ D := by
  obtain ⟨p, hp, hmove⟩ := move_of_step? hstep
  cases hmove with
  | turn τ' D' ht kept work size =>
    obtain ⟨rfl, rfl⟩ := work_inj (work_of_update work) hw
    rw [after_eq (work_of_update work) hpid]
    exact hh.owns_turn h hD₀ hp hpid ht
  | fork child next hf kept work size =>
    obtain ⟨rfl, rfl⟩ := work_inj (work_of_update work) hw
    generalize p.task = τ' at hf
    cases hf <;> trivial
  | resume child e D' D'' τ' ended hr kept work size =>
    obtain ⟨rfl, rfl⟩ := work_inj (work_of_update work) hw
    have hafter : L.after t pid = L := by
      rw [after_eq (work_of_update work) hpid]
      generalize p.task = τ'' at hr
      cases hr <;> rfl
    rw [hafter]
    exact hh.owns_resumes h hD₀ hp hpid hr

/-- No step of a machine that keeps the tree plain gives a process another end. -/
theorem Handing.step (hm : m.KeepsPlain) (hstep : s.step? m pid = some t) :
    Handing c n₀ (L.after t pid) t := by
  obtain ⟨hg, hle⟩ := h.arranged.grows hstep
  refine ⟨(kept_of_step? hstep).plain hm hh.plain,
    h.arranged.isFile_of_opened hstep hh.plain hh.opened, hh.allOpened.of_grows hg,
    hh.branching.of_grows hg, hh.piped.of_grows hg hle, Nat.le_trans hh.size hle,
    fun b i hi => first_of_grows hh.first hh.size hg hi, fun q a τ D hq hw => ?_⟩
  refine h.arranged.forall_step hstep (P := fun _ a τ D => Owns c (L.after t pid) n₀ a τ D)
    (fun a τ D hpid hw => hh.owns_of_step h hD₀ hstep hpid hw) ?_ (fun _ _ _ _ hnone => hnone) ?_
    hq hw
  · intro q a τ D hne hq hw
    exact (hh.owns q a τ D hq hw).of_agrees (h.arranged.agrees_of_grows hg hne hq)
  · intro a τ D hnone hq hw
    obtain ⟨τ', next, hf⟩ := forks_of_new hstep hw
    cases hf <;> trivial

end

/-! ## Who has an end -/

/-- The process was made just now, and has not put its end of a pipe in its place. -/
def Task.IsFresh : Task σ → Prop
  | .leaveReading _ _ _ => True
  | .attach _ _ _ => True
  | _ => False

/-- The pipe made at place `b` has found its place : the process there has closed both ends, and no
process below was made just now. -/
structure Layout.Settled (L : Layout) (s : System σ) (b : Address) (i : Nat) : Prop where
  pipe : L.pipe b = some i
  closed : ∃ q τ D, L.place q = some b ∧ s.work q = some (τ, D) ∧ ¬τ.IsPiping
  attached : ∀ q a τ D, L.place q = some a → b <:+ a → s.work q = some (τ, D) → ¬τ.IsFresh

section

variable (h : Chronicle m c D₀ n L J s) (hh : Handing c n₀ L s)
  (hD₀ : ∀ x k, D₀.get? x = some k → k.stream.IsForeign n₀)

include hh in
/-- No two pipes have the same end. -/
theorem Handing.of_hands {P : Side → Address → Prop} (hands : L.Hands n₀ P x (d.stream i))
    (hi : L.pipe b = some i) : P d b := by
  rcases hands with hforeign | ⟨d', b', i', -, hP, hi', heq⟩
  · exact absurd (hforeign d i rfl) (Nat.not_lt_of_le (hh.first b i hi))
  · obtain ⟨rfl, rfl⟩ := Side.stream_inj heq
    exact hh.piped.inj b b' i hi hi' ▸ hP

include h hh hD₀

/-- A process has an end because its place was handed it, or for a while as the process that has made
the pipe, or that was made just now. -/
theorem Handing.handed_of_get (hq : L.place q = some a) (hw : s.work q = some (τ, D))
    (hx : D.get? x = some k) (hk : k.stream = d.stream i) (hi : L.pipe b = some i) :
    c.Handed d b a ∨ τ.IsPiping ∧ a = b ∨ τ.IsFresh ∧ b <:+ a := by
  have hwiring : ∀ {q a}, L.place q = some a → L.wiring c D₀.get? a x = some k → c.Handed d b a :=
    fun hq hx => hh.of_hands (hk ▸ hh.hands_wiring h hD₀ hq hx) hi
  have own : ∀ {a : Address} {e : Side} {i' : Nat}, L.pipe a = some i' →
      e.stream i' = d.stream i → a = b := by
    intro a e i' hi' heq
    obtain ⟨rfl, rfl⟩ := Side.stream_inj heq
    exact hh.piped.inj a b _ hi' hi
  -- the table of the process that has the reading end left, and of that which has both
  have left : ∀ {q a i' r}, L.place q = some a → L.pipe a = some i' →
      Function.update (L.wiring c D₀.get? a) r (some ⟨.pipeReader i', false⟩) x = some k →
        c.Handed d b a ∨ a = b := by
    intro q a i' r hq hi' hx
    rcases Table.eq_or_of_update hx with rfl | hx
    · exact .inr (own (e := .right) hi' hk)
    · exact .inl (hwiring hq hx)
  have made : ∀ {q a i' r w}, L.place q = some a → L.pipe a = some i' →
      Function.update (Function.update (L.wiring c D₀.get? a) r (some ⟨.pipeReader i', false⟩))
        w (some ⟨.pipeWriter i', false⟩) x = some k → c.Handed d b a ∨ a = b := by
    intro q a i' r w hq hi' hx
    rcases Table.eq_or_of_update hx with rfl | hx
    · exact .inr (own (e := .left) hi' hk)
    · exact left hq hi' hx
  have hs := h.arranged.stage q a τ D hq hw
  have howns := hh.owns q a τ D hq hw
  cases hs with
  | run part rest opened childless table => exact .inl (hwiring hq (table ▸ hx))
  | open_ part rest opened childless table => exact .inl (hwiring hq (table ▸ hx))
  | install part rest opened length childless free table =>
    have hfiles : ∀ o ∈ L.opened a, o.IsFile := hh.opened a
    rw [opened] at hfiles
    rcases Table.eq_or_of_update (table ▸ hx) with rfl | hx
    · exact absurd (hk ▸ hfiles _ (List.mem_append_right _ (List.mem_singleton_self _)))
        (d.not_isFile i)
    · refine .inl (hh.of_hands (hk ▸ hands_of_part (fun o ho => hfiles o ?_)
        (fun _ _ => hh.hands_entry h hD₀ hq) hx) hi)
      exact List.mem_append_left _ ho
  | forkLeft splits childless freeReading freeWriting ne table =>
    exact (made hq splits.pipe (table ▸ hx)).imp_right fun heq => .inl ⟨trivial, heq⟩
  | closeWriting splits placed alone freeReading freeWriting ne table =>
    exact (made hq splits.pipe (table ▸ hx)).imp_right fun heq => .inl ⟨trivial, heq⟩
  | forkRight splits placed alone freeReading table =>
    exact (left hq splits.pipe (table ▸ hx)).imp_right fun heq => .inl ⟨trivial, heq⟩
  | closeReading splits placed placedRight freeReading table =>
    exact (left hq splits.pipe (table ▸ hx)).imp_right fun heq => .inl ⟨trivial, heq⟩
  | awaitLeft splits placed placedRight table => exact .inl (hwiring hq (table ▸ hx))
  | awaitRight splits placedRight table => exact .inl (hwiring hq (table ▸ hx))
  | leaveReading cons part opened childless pipe freeReading freeWriting ne table =>
    subst cons
    obtain ⟨r, hr⟩ := h.arranged.parent q _ _ hq
    refine .inr (.inr ⟨trivial, ?_⟩)
    rcases made hr pipe (table ▸ hx) with hhanded | rfl
    · exact ((List.suffix_cons _ _).trans hhanded.suffix).trans (List.suffix_cons _ _)
    · exact List.suffix_cons _ _
  | attach cons eq part opened childless pipe free table =>
    subst cons
    obtain ⟨r, hr⟩ := h.arranged.parent q _ _ hq
    refine .inr (.inr ⟨trivial, ?_⟩)
    rcases Table.eq_or_of_update (table ▸ hx) with rfl | hx
    · exact own pipe hk ▸ List.suffix_cons _ _
    · exact ((List.suffix_cons _ _).trans (hwiring hr hx).suffix).trans (List.suffix_cons _ _)
  | complain => exact .inl (hh.of_hands (hk ▸ howns x k hx) hi)
  | program => exact .inl (hh.of_hands (hk ▸ howns x k hx) hi).1
  | ended =>
    rw [howns x] at hx
    cases hx
  | reaped =>
    rw [howns x] at hx
    cases hx

/-- A process that waits has the ends that its place keeps. -/
theorem Handing.holds_iff_keeps (hq : L.place q = some a) (hw : s.work q = some (τ, D))
    (hwaits : τ.IsWaiting) (hi : L.pipe b = some i) :
    D.holds (d.stream i) = true ↔ c.Keeps d b a := by
  obtain ⟨hlength, htable⟩ : (c.redirectionsAt a).length = (L.opened a).length ∧
      D.get? = L.wiring c D₀.get? a := by
    cases h.arranged.stage q a τ D hq hw with
    | awaitLeft splits placed placedRight table => exact ⟨splits.length_redirectionsAt, table⟩
    | awaitRight splits placedRight table => exact ⟨splits.length_redirectionsAt, table⟩
    | _ => exact hwaits.elim
  rw [D.holds_iff, htable]
  constructor
  · rintro ⟨x, k, hx, hk⟩
    exact hh.of_hands (hk ▸ hh.keeps_wiring h hD₀ hq hlength hx) hi
  · intro hkeeps
    exact ⟨_, _, wiring_of_keeps hkeeps hi, rfl⟩

/-- Once a pipe has found its place, its ends are where they were handed. -/
theorem Handing.handed_of_holds (hsettled : L.Settled s b i) (hw : s.work q = some (τ, D))
    (hold : D.holds (d.stream i) = true) : ∃ a, L.place q = some a ∧ c.Handed d b a := by
  obtain ⟨x, k, hx, hk⟩ := (D.holds_iff _).mp hold
  rcases hq : L.place q with _ | a
  · rcases eq_or_ne q shell with rfl | hne
    · obtain ⟨τ', hτ', -⟩ := h.arranged.atShell
      obtain ⟨-, rfl⟩ := work_inj hw hτ'
      exact absurd (hD₀ x k hx d i hk) (Nat.not_lt_of_le (hh.first b i hsettled.pipe))
    · rw [(h.arranged.other q τ D hne hq hw).2 x] at hx
      cases hx
  refine ⟨a, rfl, ?_⟩
  rcases hh.handed_of_get h hD₀ hq hw hx hk hsettled.pipe with
    hhanded | ⟨hpiping, rfl⟩ | ⟨hfresh, hs⟩
  · exact hhanded
  · obtain ⟨r, τ', D', hr, hwr, hclosed⟩ := hsettled.closed
    obtain rfl := h.arranged.inj q r a hq hr
    obtain ⟨rfl, -⟩ := work_inj hw hwr
    exact absurd hpiping hclosed
  · exact absurd hfresh (hsettled.attached q a τ D hq hs hw)

/-- Once all are over that were handed an end, nobody has it. -/
theorem Handing.held_eq_false (hsettled : L.Settled s b i)
    (hover : ∀ q a, L.place q = some a → c.Handed d b a → s.Over q) :
    s.held (d.stream i) = false := by
  rw [Bool.eq_false_iff]
  intro hheld
  obtain ⟨q, τ, D, hw, hold⟩ := held_iff.mp hheld
  obtain ⟨a, hq, hhanded⟩ := hh.handed_of_holds h hD₀ hsettled hw hold
  obtain ⟨x, k, hx, -⟩ := (D.holds_iff _).mp hold
  have howns := hh.owns q a τ D hq hw
  obtain ⟨τ', D', hw', e, he⟩ := hover q a hq hhanded
  obtain ⟨rfl, -⟩ := work_inj hw hw'
  rcases he with rfl | rfl <;>
    · rw [howns x] at hx
      cases hx

end

/-- A placed process stands for a part of the command. -/
theorem Handing.exists_core_of_place (hh : Handing c n₀ L s) (hq : L.place q = some a) :
    ∃ k, c.core? a = some k := by
  cases a with
  | nil => exact ⟨_, Command.core?_eq rfl⟩
  | cons d a =>
    obtain ⟨left, right, core⟩ := hh.branching q d a hq
    exact ⟨_, Command.core?_eq (Command.part?_cons_of_core? core d)⟩

/-! ## A line -/

namespace System

/-- The next step of a process writes some bytes to a pipe, and it does not outlive a broken one. -/
def Writes (m : Machine σ) (s : System σ) (w : Pid) (i : Nat) : Prop :=
  ∃ state D x data next k, s.work w = some (.program state, D) ∧
    m.act state = .write x data none next ∧ data ≠ [] ∧ D.get? x = some k ∧
    k.stream = .pipeWriter i

/-- The next step of a process is that it dies of a broken pipe. -/
def Breaks (m : Machine σ) (s : System σ) (w : Pid) : Prop :=
  ∃ t, s.step? m w = some t ∧ t.work w = some (.ended (.killed 13), {})

/-- Who writes to a pipe that nobody can read dies of it. -/
theorem Writes.breaks {w : Pid} (h : s.Writes m w i) (hheld : s.held (.pipeReader i) = false) :
    s.Breaks m w := by
  obtain ⟨state, D, x, data, next, k, hw, hact, hdata, hx, hk⟩ := h
  obtain ⟨p, hp, ht, rfl⟩ := work_eq_some_iff.mp hw
  have hbroken : s.writeTo k.stream data = .broken := by
    rw [hk, writeTo, if_neg (by rwa [List.isEmpty_iff]), hheld]
    rfl
  refine ⟨s.finish w p (.killed 13), ?_, ?_⟩
  · simp only [step?, hp, ht, programStep?, hact, hx, hbroken]
  · rw [finish, work_setProcess hp, Function.update_self]

theorem pipes_setShellTask (s : System σ) (τ : Task σ) : (s.setShellTask τ).pipes = s.pipes := by
  unfold setShellTask
  split <;> rfl

theorem handing_of_journaled (hs : s.Idle D₀)
    (hD₀ : ∀ x k, D₀.get? x = some k → k.stream.IsForeign s.pipes.size)
    (hplain : s.files.Plain) (hm : m.KeepsPlain)
    (hJ : Journaled m (s.setShellTask (.execute c)) t L J) : Handing c s.pipes.size L t := by
  induction hJ with
  | start =>
    refine ⟨by rwa [files_setShellTask], by rintro a o ⟨⟩, by rintro q d a ⟨⟩, by rintro q d a ⟨⟩,
      piped_empty _, Nat.le_of_eq (congrArg Array.size (pipes_setShellTask s _)).symm,
      by rintro b i ⟨⟩, by rintro q a τ D ⟨⟩⟩
  | step hprev hstep ih => exact ih.step (chronicle_of_journaled hs hprev) hD₀ hm hstep

/-- In every state to which steps lead from that in which a line begins, with a plain tree, programs
that keep it so, and no descriptor of the shell that is an end of a pipe yet to be made : the process
of a pipe has, while it waits, just those ends that its place keeps, and so none of its own pipe ; a
program has no ends but those that its place keeps ; and once a pipe has found its place, nobody has
an end of it but those whose places were handed it, and a program on a side is all that is handed the
end for that side. When all those have ended, nobody has the end, and if it is the reading one, who
writes to the pipe next dies of signal 13. -/
theorem ends_handed (hs : s.Idle D₀)
    (hD₀ : ∀ x k, D₀.get? x = some k → k.stream.IsForeign s.pipes.size)
    (hplain : s.files.Plain) (hm : m.KeepsPlain)
    (ht : Traced m (s.setShellTask (.execute c)) t L) :
    (∀ q a τ D, L.place q = some a → t.work q = some (τ, D) → τ.IsWaiting →
      (∀ (d : Side) b i, L.pipe b = some i → (D.holds (d.stream i) = true ↔ c.Keeps d b a)) ∧
      ∀ (d : Side) i, L.pipe a = some i → D.holds (d.stream i) = false) ∧
    (∀ q a state D, L.place q = some a → t.work q = some (.program state, D) →
      ∀ (d : Side) b i, L.pipe b = some i → D.holds (d.stream i) = true → c.Keeps d b a) ∧
    (∀ b i, L.Settled t b i →
      (∀ (d : Side) q τ D, t.work q = some (τ, D) → D.holds (d.stream i) = true →
        ∃ a, L.place q = some a ∧ c.Handed d b a) ∧
      (∀ d : Side, (∀ q a, L.place q = some a → c.Handed d b a → t.Over q) →
        t.held (d.stream i) = false) ∧
      ((∀ q a, L.place q = some a → c.Handed .right b a → t.Over q) →
        ∀ w, t.Writes m w i → t.Breaks m w)) ∧
    ∀ d b argv, c.core? (d :: b) = some (.exec argv) →
      ∀ q a, L.place q = some a → c.Handed d b a → a = d :: b := by
  obtain ⟨J, hJ⟩ := ht.journaled
  have h := chronicle_of_journaled hs hJ
  have hh := handing_of_journaled hs hD₀ hplain hm hJ
  refine ⟨fun q a τ D hq hw hwaits => ⟨fun d b i hi => ?_, fun d i hi => ?_⟩,
    fun q a state D hq hw d b i hi hold => ?_, fun b i hsettled => ⟨?_, ?_, ?_⟩,
    fun d b argv core q a hq hhanded => ?_⟩
  · exact hh.holds_iff_keeps h hD₀ hq hw hwaits hi
  · rw [Bool.eq_false_iff]
    intro hold
    exact c.not_handed_self d a ((hh.holds_iff_keeps h hD₀ hq hw hwaits hi).mp hold).1
  · obtain ⟨x, k, hx, hk⟩ := (D.holds_iff _).mp hold
    exact hh.of_hands (hk ▸ hh.owns q a _ D hq hw x k hx) hi
  · exact fun d q τ D hw hold => hh.handed_of_holds h hD₀ hsettled hw hold
  · exact fun d hover => hh.held_eq_false h hD₀ hsettled hover
  · intro hover w hwrites
    exact hwrites.breaks (hh.held_eq_false h hD₀ (d := .right) hsettled hover)
  · obtain ⟨k, hk⟩ := hh.exists_core_of_place hq
    exact hhanded.eq_of_core core hk

/-- Programs of three kinds : `a` writes to descriptor 1 again and again, `b` ends at once, and any
other goes on for ever. -/
def kinds : Machine Bytes where
  load _ _ argv := .ok (argv.headD [])
  act name :=
    if name = [0x61] then .write 1 [0x78] none fun _ => name
    else if name = [0x62] then .exit 0 else .compute name

/-- A shell with three files. -/
def alone : System Bytes := boot Files.root 0 []

/-- A pipe between a program and a pipe. -/
def trio : Command := .pipe (.exec [[0x61]]) (.pipe (.exec [[0x62]]) (.exec [[0x63]]))

/-- The order in which the processes of `trio` take steps until the program in the middle has ended, and
the process of the pipe on the right waits for the last one. -/
def trioSteps : List Pid := [0, 1, 1, 1, 1, 1, 3, 3, 3, 3, 3, 3, 4, 4, 4, 4, 3, 2, 2, 2, 5, 5]

theorem idle_alone : alone.Idle
    ⟨[some ⟨.file 0, false⟩, some ⟨.file 1, false⟩, some ⟨.file 2, false⟩]⟩ where
  atShell := ⟨_, rfl⟩
  other q τ D hq hw := by
    have hlt : q < 1 := lt_of_work_eq_some hw
    exact absurd (Nat.lt_one_iff.mp hlt) hq

theorem plain_alone : alone.files.Plain := plain_bare

theorem keepsPlain_kinds : kinds.KeepsPlain := by
  intro state change next hact
  simp only [kinds] at hact
  split at hact
  · cases hact
  · split at hact <;> cases hact

/-- The process of the pipe on the right waits, and has the reading end of the pipe on its left. -/
theorem ends_handed_trio : ∃ (t : System Bytes) (L : Layout) (D : Descriptors),
    Traced kinds (alone.setShellTask (.execute trio)) t L ∧
      t.work 3 = some (.awaitRight 5, D) ∧ D.holds (Side.right.stream 0) = true := by
  obtain ⟨t, D, ht, hw⟩ : ∃ t D, steps kinds trioSteps (alone.setShellTask (.execute trio)) = some t ∧
      t.work 3 = some (.awaitRight 5, D) := ⟨_, _, rfl, rfl⟩
  have hL := (journaled_of_steps (.start (m := kinds)) ht).traced
  have hfiles : ∀ x k, Descriptors.get?
      ⟨[some ⟨.file 0, false⟩, some ⟨.file 1, false⟩, some ⟨.file 2, false⟩]⟩ x = some k →
        k.stream.IsForeign alone.pipes.size := by
    rintro (_ | _ | _ | x) k hk <;> cases hk <;> exact Stream.IsFile.isForeign ⟨_, rfl⟩
  have hkeeps : trio.Keeps .right [] [.right] := ⟨.attached, by rintro r ⟨⟩⟩
  refine ⟨t, _, D, hL, hw, ?_⟩
  exact (((ends_handed idle_alone hfiles plain_alone keepsPlain_kinds hL).1 3 [.right] _ D rfl hw
    trivial).1 .right [] 0 rfl).mpr hkeeps

/-- The program that reads from the first pipe has ended, and what was made has found its place. Yet
who writes to that pipe next does not die of it, while the last program goes on : the process of the
pipe on the right has the reading end. -/
theorem not_breaks_trio : ∃ (t : System Bytes) (L : Layout) (D : Descriptors),
    Traced kinds (alone.setShellTask (.execute trio)) t L ∧ L.Settled t [] 0 ∧
      L.place 4 = some [.left, .right] ∧ t.Over 4 ∧
      t.work 3 = some (.awaitRight 5, D) ∧ D.holds (.pipeReader 0) = true ∧
      t.Writes kinds 2 0 ∧ ¬t.Breaks kinds 2 ∧ (t.step? kinds 5).isSome = true := by
  obtain ⟨t, D, D₁, D₂, ht, htasks, hw₁, hw₂, hx, hw, hold, hover, hgoes⟩ : ∃ t D D₁ D₂,
      steps kinds trioSteps (alone.setShellTask (.execute trio)) = some t ∧
      t.processes.toList.map Process.task = [.awaitLine 1, .awaitLeft 2 3, .program [0x61],
        .awaitRight 5, .reaped (.exited 0), .program [0x63]] ∧
      t.work 1 = some (.awaitLeft 2 3, D₁) ∧ t.work 2 = some (.program [0x61], D₂) ∧
      D₂.get? 1 = some ⟨.pipeWriter 0, false⟩ ∧ t.work 3 = some (.awaitRight 5, D) ∧
      D.holds (.pipeReader 0) = true ∧ t.work 4 = some (.reaped (.exited 0), {}) ∧
      (t.step? kinds 5).isSome = true := ⟨_, _, _, _, rfl, rfl, rfl, rfl, rfl, rfl, rfl, rfl, rfl⟩
  -- who dies has no descriptors left
  have hlives : (steps kinds trioSteps (alone.setShellTask (.execute trio))).bind (fun t =>
      (t.step? kinds 2).bind fun u => (u.work 2).map fun w => decide (w.2 = {})) = some false := by
    decide +kernel
  have hL := (journaled_of_steps (.start (m := kinds)) ht).traced
  have hfresh : ∀ q τ D, t.work q = some (τ, D) → ¬τ.IsFresh := by
    intro q τ D hq hfresh
    obtain ⟨p, hp, rfl, -⟩ := work_eq_some_iff.mp hq
    have hmem : p.task ∈ t.processes.toList.map Process.task :=
      List.mem_map_of_mem (Array.mem_toList_iff.mpr (Array.mem_of_getElem? hp))
    rw [htasks] at hmem
    generalize p.task = τ at hmem hfresh
    simp only [List.mem_cons, List.not_mem_nil, or_false] at hmem
    rcases hmem with rfl | rfl | rfl | rfl | rfl | rfl <;> exact hfresh
  refine ⟨t, _, D, hL, ⟨rfl, ⟨1, _, D₁, rfl, hw₁, id⟩, fun q a τ D _ _ hq => hfresh q τ D hq⟩, rfl,
    ⟨_, _, hover, _, .inr rfl⟩, hw, hold, ⟨_, D₂, 1, _, _, _, hw₂, rfl, List.cons_ne_nil _ _, hx, rfl⟩, ?_, hgoes⟩
  rintro ⟨v, hv, hdies⟩
  rw [ht, Option.bind_some, hv, Option.bind_some, hdies] at hlives
  cases hlives

end System

end LineShell
