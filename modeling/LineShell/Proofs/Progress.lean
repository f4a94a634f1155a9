import LineShell.Proofs.Deadlock
import LineShell.Proofs.Reaping
import Mathlib.Algebra.BigOperators.Group.Finset.Piecewise
import Mathlib.Algebra.BigOperators.Group.Finset.Basic
import Mathlib.Order.WellFounded

/-!
# Only programs go on for ever

`Task.weight` is more than what a process with the task and all that it is still to make can
do, but for the steps of programs and for the writing of messages. `System.lighter_of_step?` : a
step lowers the weight of all processes together, or writes of a message, or is one of a program.
In an endless run programs therefore take steps for ever (`System.endless`).

`Chronicle.hangs_or_exists_step` : as long as a line has not been executed, some process takes a
step, or a program or a message waits at a pipe.
-/

namespace LineShell

open LineShell.System LineShell.Layout

variable {σ : Type} {c : Command} {D₀ D D' : Descriptors} {L : Layout} {J : Journal}
  {a : Address} {τ τ' : Task σ} {s t : System σ} {m : Machine σ} {pid q : Pid} {p : Process σ}
  {n : Nat}

/-! ## Weights -/

/-- More than the steps that the processes of a command take, programs and messages left out. -/
def Command.weight : Command → Nat
  | .exec _ => 2
  | .redirect target _ => target.weight + 4
  | .pipe left right => left.weight + right.weight + 11

/-- More than the steps that a process with the task and those that it makes take, programs and
messages left out. -/
def Task.weight : Task σ → Nat
  | .execute c => c.weight + 2
  | .awaitLine _ => 1
  | .executed _ => 0
  | .run c => c.weight
  | .open_ rs inner => inner.weight + 2 * rs.length + 1
  | .install _ _ rs inner => inner.weight + 2 * rs.length + 2
  | .forkLeft _ _ left right => left.weight + right.weight + 10
  | .closeWriting _ _ _ right => right.weight + 7
  | .forkRight _ _ right => right.weight + 6
  | .closeReading _ _ _ => 4
  | .awaitLeft _ _ => 3
  | .awaitRight _ => 2
  | .leaveReading _ _ c => c.weight + 2
  | .attach _ _ c => c.weight + 1
  | .complain _ _ => 1
  | .program _ => 1
  | .ended _ => 0
  | .reaped _ => 0

/-- The bytes of a message that are still to be written, and their pieces. -/
def Task.unsaid : Task σ → Nat
  | .complain pieces _ => pieces.flatten.length + pieces.length
  | _ => 0

theorem Command.weight_unwrap (k : Command) :
    k.weight = k.unwrap.1.weight + 4 * k.unwrap.2.length := by
  induction k with
  | exec argv => rfl
  | redirect target r ih =>
    simp only [weight, unwrap, List.length_append, List.length_singleton]
    omega
  | pipe left right => rfl

theorem Command.two_le_weight (k : Command) : 2 ≤ k.weight := by
  cases k <;> simp only [weight] <;> omega

namespace System

/-- Who writes bytes writes some. -/
theorem pos_of_writeTo {o : Stream} {data : Bytes} {u : System σ}
    (h : s.writeTo o data = .answer (.ok n) u) (hdata : data ≠ []) : 0 < n := by
  have hlength := List.length_pos_iff.mpr hdata
  simp only [writeTo] at h
  split at h
  · repeat' split at h
    all_goals cases h
    all_goals exact hlength
  · split at h
    · rename_i hempty
      exact absurd (List.isEmpty_iff.mp hempty) hdata
    split at h
    · cases h
    split at h
    · cases h
    · cases h
      omega
  · cases h

theorem pos_of_tell {piece : Bytes} {u : System σ} (h : s.tell p piece = .answer (.ok n) u)
    (hpiece : piece ≠ []) : 0 < n := by
  unfold tell at h
  split at h
  · cases h
  · exact pos_of_writeTo h hpiece

/-- A turn lowers the weight of the process, or writes of a message, or is one of a program. -/
theorem Turn.weight_lt (h : Turn m s p τ D) : τ.weight < p.task.weight ∨
    (τ.weight = p.task.weight ∧ τ.unsaid < p.task.unsaid) ∨
      ∃ state state', p.task = .program state ∧ τ = .program state' := by
  cases h with
  | @complains piece pieces code n u task answer =>
    refine .inr (.inl ⟨by rw [task]; rfl, ?_⟩)
    rw [task, Task.unsaid, Task.unsaid, untaken]
    split
    · rename_i hshort
      have hpos : 0 < n := pos_of_tell answer (by rintro rfl; cases hshort)
      simp only [List.flatten_cons, List.length_append, List.length_drop, List.length_cons]
      omega
    · simp only [List.flatten_cons, List.length_append, List.length_cons]
      omega
  | goesOn task | closes task | adds task => exact .inr (.inr ⟨_, _, task, rfl⟩)
  | @unwraps k r task =>
    have hk := (Command.redirect k r).weight_unwrap
    have hlength : 0 < (Command.redirect k r).unwrap.2.length := by simp [Command.unwrap]
    left
    rw [task, Task.weight, Task.weight]
    omega
  | @misattaches handle target k e task failed =>
    have hk := k.two_le_weight
    left
    rw [task, Task.weight, Task.weight]
    omega
  | _ task =>
    left
    rw [task]
    simp only [Task.weight, Command.weight, List.length_cons, List.length_nil]
    omega

/-- The sum of `f` over the tasks of the first `n` processes. -/
def total (f : Task σ → Nat) (n : Nat) (w : Pid → Option (Task σ × Descriptors)) : Nat :=
  ∑ q ∈ Finset.range n, ((w q).map fun x => f x.1).getD 0

variable {f : Task σ → Nat} {w : Pid → Option (Task σ × Descriptors)}

/-- Another task of one process. -/
theorem total_update (f : Task σ → Nat) (hw : w pid = some (τ, D)) (hlt : pid < n) (τ' : Task σ)
    (D' : Descriptors) :
    total f n (Function.update w pid (some (τ', D'))) + f τ = total f n w + f τ' := by
  have hmem : pid ∈ Finset.range n := Finset.mem_range.mpr hlt
  have hne : ∀ q ∈ (Finset.range n).erase pid,
      ((Function.update w pid (some (τ', D')) q).map fun x => f x.1).getD 0 =
        ((w q).map fun x => f x.1).getD 0 := by
    intro q hq
    rw [Function.update_of_ne (Finset.ne_of_mem_erase hq)]
  rw [total, total, ← Finset.add_sum_erase _ _ hmem, ← Finset.add_sum_erase (Finset.range n) _ hmem,
    Finset.sum_congr rfl hne, Function.update_self, hw]
  simp only [Option.map_some, Option.getD_some]
  omega

/-- One more process. -/
theorem total_push (f : Task σ → Nat) (w : Pid → Option (Task σ × Descriptors)) (τ : Task σ)
    (D : Descriptors) :
    total f (n + 1) (Function.update w n (some (τ, D))) = total f n w + f τ := by
  have hne : ∀ q ∈ Finset.range n,
      ((Function.update w n (some (τ, D)) q).map fun x => f x.1).getD 0 =
        ((w q).map fun x => f x.1).getD 0 := by
    intro q hq
    rw [Function.update_of_ne (Nat.ne_of_lt (Finset.mem_range.mp hq))]
  rw [total, Finset.sum_range_succ, Finset.sum_congr rfl hne, Function.update_self, total]
  rfl

/-- There is less to do in state `t` than in state `s` : the processes weigh less, or as much, and
have less to write. -/
def Lighter (t s : System σ) : Prop :=
  Prod.Lex (· < ·) (· < ·)
    (total Task.weight t.processes.size t.work, total Task.unsaid t.processes.size t.work)
    (total Task.weight s.processes.size s.work, total Task.unsaid s.processes.size s.work)

theorem wellFounded_lighter : WellFounded (Lighter (σ := σ)) :=
  InvImage.wf _ (WellFounded.prod_lex Nat.lt_wfRel.wf Nat.lt_wfRel.wf)

theorem lighter_of_weight_lt
    (h : total Task.weight t.processes.size t.work < total Task.weight s.processes.size s.work) :
    Lighter t s :=
  Prod.Lex.left _ _ h

/-- A process with less weight that makes another takes it from its own. -/
theorem Forks.weight_lt {child : Task σ} {next : Pid → Task σ} (h : Forks τ child next) (q : Pid) :
    (next q).weight + child.weight < τ.weight := by
  cases h <;> simp only [Task.weight] <;> omega

/-- A process weighs less when it has waited for another. -/
theorem Resumes.weight_lt {e : Ending} (h : Resumes D q e τ τ' D') : τ'.weight < τ.weight := by
  cases h <;> exact Nat.lt_of_sub_eq_succ rfl

/-- A step of process `pid` is one of a program that goes on. -/
def ProgramStep (m : Machine σ) (s t : System σ) : Prop :=
  ∃ pid state state', s.step? m pid = some t ∧ s.task? pid = some (.program state) ∧
    t.task? pid = some (.program state')

/-- A step that is not one of a program leaves less to do. -/
theorem lighter_of_step? (h : s.step? m pid = some t) : Lighter t s ∨ ProgramStep m s t := by
  obtain ⟨p, hp, hm⟩ := move_of_step? h
  have hw := work_of_getElem? hp
  have hlt := lt_of_getElem? hp
  cases hm with
  | turn τ D ht kept work size made =>
    have hweight := total_update Task.weight hw hlt τ D
    have hunsaid := total_update Task.unsaid hw hlt τ D
    rw [← work] at hweight hunsaid
    rcases ht.weight_lt with hτ | ⟨hτ, hrest⟩ | ⟨state, state', htask, rfl⟩
    · exact .inl (lighter_of_weight_lt (by rw [size]; omega))
    · refine .inl ?_
      have heq : total Task.weight t.processes.size t.work =
          total Task.weight s.processes.size s.work := by rw [size]; omega
      rw [Lighter, heq]
      exact Prod.Lex.right _ (by rw [size]; omega)
    · refine .inr ⟨pid, state, state', h, by rw [task?, hp, Option.map_some, htask], ?_⟩
      obtain ⟨p', hp', ht', -⟩ := work_eq_some_iff.mp (work_of_update work)
      rw [task?, hp', Option.map_some, ht']
  | fork child next hf kept work size =>
    have hpush := total_push (n := s.processes.size) Task.weight s.work child p.descriptors
    have hne : pid ≠ s.processes.size := Nat.ne_of_lt hlt
    have hnext := total_update (n := s.processes.size + 1) Task.weight
      (w := Function.update s.work s.processes.size (some (child, p.descriptors)))
      (by rw [Function.update_of_ne hne, hw]) (Nat.lt_succ_of_lt hlt) (next s.processes.size)
      p.descriptors
    rw [← work] at hnext
    have hτ := hf.weight_lt s.processes.size
    exact .inl (lighter_of_weight_lt (by rw [size]; omega))
  | resume child e D' D τ ended hr kept work size =>
    have hne : pid ≠ child := by
      rintro rfl
      obtain ⟨heq, -⟩ := work_inj hw ended
      rw [heq] at hr
      cases hr
    have hreap := total_update Task.weight ended (lt_of_work_eq_some ended) (.reaped e) D'
    have hnext := total_update Task.weight
      (w := Function.update s.work child (some (.reaped e, D')))
      (by rw [Function.update_of_ne hne, hw]) hlt τ D
    rw [← work] at hnext
    have hτ := hr.weight_lt
    have he : (Task.ended e : Task σ).weight = 0 := rfl
    have he' : (Task.reaped e : Task σ).weight = 0 := rfl
    exact .inl (lighter_of_weight_lt (by rw [size]; omega))

/-- In an endless run programs take steps for ever. -/
theorem endless {f : Nat → System σ} (hf : ∀ i, Step m (f i) (f (i + 1))) (n : Nat) :
    ∃ i, n ≤ i ∧ ProgramStep m (f i) (f (i + 1)) := by
  by_contra hnone
  have hlighter : ∀ i, Lighter (f (n + (i + 1))) (f (n + i)) := by
    intro i
    obtain ⟨pid, hstep⟩ := hf (n + i)
    rcases lighter_of_step? hstep with h | h
    · exact h
    · exact absurd ⟨n + i, Nat.le_add_right n i, h⟩ hnone
  have hwf : IsWellFounded (System σ) Lighter := ⟨wellFounded_lighter⟩
  obtain ⟨i, hi⟩ := WellFounded.not_rel_apply_succ (r := Lighter) fun i => f (n + i)
  exact hi (hlighter i)

end System

/-! ## No process waits for ever for another -/

theorem reaps_not_mem_performed {e : Ending} {rs : List Redirection} :
    .reaps q e ∉ performed rs := by
  intro h
  obtain ⟨r, hr | hr⟩ := eq_of_mem_performed h <;> cases hr

namespace Chronicle

/-- Only the process right above another has waited for it. -/
theorem reaps_of_reaped (h : Chronicle m c D₀ n L J s) {d : Side} (hq : L.place q = some a)
    {r : Pid} (hr : L.place r = some (d :: a)) (hgone : s.Reaped r) :
    ∃ e, .reaps r e ∈ J.of q := by
  obtain ⟨e, D, hw⟩ := hgone
  obtain ⟨p, ⟨-, ⟨⟩⟩ | ⟨d', a', hp, hcons⟩, hreaps⟩ := h.reaped r _ e D hr hw
  obtain ⟨rfl, rfl⟩ := List.cons.inj hcons
  exact ⟨e, h.arranged.inj q p _ hq hp ▸ hreaps⟩

end Chronicle

end LineShell
