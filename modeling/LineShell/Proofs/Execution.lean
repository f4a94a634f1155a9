import LineShell.Proofs.Arranged
import LineShell.System.Run

/-!
# The descriptors of the programs of a line

`System.Idle` : the shell has nothing left of earlier lines. Every state to which steps lead
from there, once the shell has a line to execute, is `Arranged`. Then every pipe and every
opened file of the layout is what it is called (`Layout.Piped`, `System.Came`).

`System.descriptors_eq_wiring` : every process that is to become a program has the descriptors of
its place in the command tree and no others, and the shell keeps its own.
-/

namespace LineShell

variable {σ : Type} {c : Command} {D₀ D : Descriptors} {L : Layout} {a : Address} {s t u : System σ}
  {m : Machine σ} {pid : Pid}

namespace System

/-- The shell has the descriptors `D₀`, and nothing is left of earlier lines : every other
process has ended, and has no descriptors. -/
structure Idle (s : System σ) (D₀ : Descriptors) : Prop where
  atShell : ∃ τ, s.work shell = some (τ, D₀)
  other : ∀ q τ D, q ≠ shell → s.work q = some (τ, D) → τ.IsOver ∧ ∀ n, D.get? n = none

theorem work_setShellTask (h : s.Idle D₀) (τ : Task σ) :
    (s.setShellTask τ).work = Function.update s.work shell (some (τ, D₀)) := by
  obtain ⟨τ', hτ'⟩ := h.atShell
  obtain ⟨p, hp, -, rfl⟩ := work_eq_some_iff.mp hτ'
  rw [setShellTask, hp]
  exact work_setProcess hp _

/-- A line is executed from an arranged state. -/
theorem arranged_start (h : s.Idle D₀) (c : Command) :
    Arranged c D₀ {} (s.setShellTask (.execute c)) := by
  have hw := work_setShellTask h (.execute c)
  refine ⟨⟨_, by rw [hw, Function.update_self], .begins fun _ => rfl⟩, ?_, ?_, ?_, ?_, ?_,
    fun _ _ => ⟨rfl, rfl⟩⟩
  · rintro q a ⟨⟩
  · rintro q r a ⟨⟩
  · rintro q a τ D ⟨⟩
  · intro q τ D hq _ hwork
    rw [hw, Function.update_of_ne hq] at hwork
    exact h.other q τ D hq hwork
  · rintro q d a ⟨⟩

theorem arranged_of_traced (h : s.Idle D₀) (ht : Traced m (s.setShellTask (.execute c)) t L) :
    Arranged c D₀ L t := by
  induction ht with
  | start => exact arranged_start h c
  | step _ hstep ih => exact ih.step hstep

end System

open LineShell.System LineShell.Layout

/-! ## Pipes -/

/-- Every pipe of the layout is there, none stands for two places, and there is one above
every process but that of the whole tree. -/
structure Layout.Piped (L : Layout) (s : System σ) : Prop where
  lt : ∀ a p, L.pipe a = some p → p < s.pipes.size
  inj : ∀ a b p, L.pipe a = some p → L.pipe b = some p → a = b
  above : ∀ q d a, L.place q = some (d :: a) → ∃ p, L.pipe a = some p

theorem Layout.piped_empty (s : System σ) : ({} : Layout).Piped s := by
  refine ⟨?_, ?_, ?_⟩
  · rintro a p ⟨⟩
  · rintro a b p ⟨⟩
  · rintro q d a ⟨⟩

/-- What a step of process `pid` adds to the layout. -/
inductive Layout.Grows (c : Command) (L : Layout) (s t : System σ) (pid : Pid) : Layout → Prop
  | same : Grows c L s t pid L
  | line : Grows c L s t pid (L.enter s.processes.size [])
  | side {d : Side} {a : Address} {left right : Command} {p : Nat} (place : L.place pid = some a)
      (splits : Splits c L a left right p) : Grows c L s t pid (L.enter s.processes.size (d :: a))
  | pipe {a : Address} (place : L.place pid = some a) (childless : L.Childless a)
      (lt : s.pipes.size < t.pipes.size) : Grows c L s t pid (L.make a s.pipes.size)
  | opened {a : Address} {o : Stream} (place : L.place pid = some a) (childless : L.Childless a) :
      Grows c L s t pid (L.take a o)

theorem Layout.Piped.of_grows {L' : Layout} (h : L.Piped s) (hg : L.Grows c s t pid L')
    (hle : s.pipes.size ≤ t.pipes.size) : L'.Piped t := by
  have hlt : ∀ a p, L.pipe a = some p → p < t.pipes.size :=
    fun a p hp => Nat.lt_of_lt_of_le (h.lt a p hp) hle
  have henter : ∀ (q : Pid) (b : Address), (∀ d a, b = d :: a → ∃ p, L.pipe a = some p) →
      (L.enter q b).Piped t := by
    intro q b hb
    refine ⟨hlt, h.inj, fun r d a hr => ?_⟩
    rw [place_enter] at hr
    rcases eq_or_ne r q with rfl | hne
    · rw [Function.update_self] at hr
      exact hb d a (Option.some.inj hr)
    · rw [Function.update_of_ne hne] at hr
      exact h.above r d a hr
  cases hg with
  | same => exact ⟨hlt, h.inj, h.above⟩
  | line => exact henter _ _ (by rintro d a ⟨⟩)
  | side place splits =>
    refine henter _ _ fun d a heq => ?_
    obtain ⟨rfl, rfl⟩ := List.cons.inj heq
    exact ⟨_, splits.pipe⟩
  | opened => exact ⟨hlt, h.inj, h.above⟩
  | @pipe a place childless lt =>
    have hold : ∀ b, b ≠ a → (L.make a s.pipes.size).pipe b = L.pipe b :=
      fun b hb => Function.update_of_ne hb _ _
    have hnew : (L.make a s.pipes.size).pipe a = some s.pipes.size := Function.update_self _ _ _
    have hother : ∀ b p, b ≠ a → (L.make a s.pipes.size).pipe b = some p → p ≠ s.pipes.size := by
      rintro b p hb hp rfl
      rw [hold b hb] at hp
      exact Nat.lt_irrefl _ (h.lt b _ hp)
    refine ⟨?_, ?_, ?_⟩
    · intro b p hp
      rcases eq_or_ne b a with rfl | hb
      · rw [hnew] at hp
        exact Option.some.inj hp ▸ lt
      · rw [hold b hb] at hp
        exact hlt b p hp
    · intro b b' p hp hp'
      rcases eq_or_ne b a with rfl | hb
      · rcases eq_or_ne b' b with rfl | hb'
        · rfl
        · rw [hnew] at hp
          exact absurd (Option.some.inj hp).symm (hother b' p hb' hp')
      · rcases eq_or_ne b' a with rfl | hb'
        · rw [hnew] at hp'
          exact absurd (Option.some.inj hp').symm (hother b p hb hp)
        · rw [hold b hb] at hp
          rw [hold b' hb'] at hp'
          exact h.inj b b' p hp hp'
    · intro q d b hq
      rcases eq_or_ne b a with rfl | hb
      · exact ⟨_, hnew⟩
      · rw [hold b hb]
        exact h.above q d b hq

theorem Layout.after_of_work {τ : Task σ} (hw : t.work pid = some (τ, D)) :
    L.after t pid = L.note ((L.place pid).getD []) τ D := by
  rw [after, hw]

/-- A process that has not ended and has something else to do than the shell has a place, and
is in a stage of it. -/
theorem Arranged.exists_stage (h : Arranged c D₀ L s) {τ : Task σ}
    (hw : s.work pid = some (τ, D)) (hover : ¬τ.IsOver) (hshell : ¬ShellStage c L τ) :
    ∃ a, L.place pid = some a ∧ Stage c D₀.get? L a D.get? τ := by
  rcases hpid : L.place pid with _ | a
  · rcases eq_or_ne pid shell with rfl | hne
    · obtain ⟨τ', hτ', hs⟩ := h.atShell
      obtain ⟨rfl, -⟩ := work_inj hw hτ'
      exact absurd hs hshell
    · exact absurd (h.other pid τ D hne hpid hw).1 hover
  · exact ⟨a, rfl, h.stage pid a τ D hpid hw⟩

/-- What is known after a process has gone on alone. -/
theorem Arranged.grows_of_turn (h : Arranged c D₀ L s) {p : Process σ} {τ : Task σ}
    (hp : s.processes[pid]? = some p) (ht : Turn m s p τ D)
    (made : ∀ reading writing left right, τ = .forkLeft reading writing left right →
      s.pipes.size < t.pipes.size) : L.Grows c s t pid (L.note ((L.place pid).getD []) τ D) := by
  have hw := work_of_getElem? hp
  cases ht with
  | pipes task added =>
    rw [task] at hw
    obtain ⟨a, ha, hs⟩ := h.exists_stage hw (by rintro ⟨e, h | h⟩ <;> cases h) (by rintro ⟨⟩)
    rw [ha, Option.getD_some, note_forkLeft added]
    exact .pipe ha hs.childless_of_run (made _ _ _ _ rfl)
  | @opens r rs inner stream u task hopen =>
    rw [task] at hw
    obtain ⟨a, ha, hs⟩ := h.exists_stage hw (by rintro ⟨e, h | h⟩ <;> cases h) (by rintro ⟨⟩)
    rw [ha, Option.getD_some, note_install p.descriptors r rs inner stream]
    exact .opened ha hs.childless_of_open
  | _ => exact .same

/-- A step adds to the layout what it has done. -/
theorem Arranged.grows (h : Arranged c D₀ L s) (hstep : s.step? m pid = some t) :
    L.Grows c s t pid (L.after t pid) ∧ s.pipes.size ≤ t.pipes.size := by
  obtain ⟨p, hp, hm⟩ := move_of_step? hstep
  cases hm with
  | turn τ D ht kept work size made =>
    rw [after_of_work (work_of_update work)]
    exact ⟨h.grows_of_turn hp ht made, kept.pipes⟩
  | resume child e D' D τ ended hr kept work size =>
    rw [after_of_work (work_of_update work)]
    refine ⟨?_, kept.pipes⟩
    generalize p.task = τ' at hr
    cases hr <;> exact .same
  | fork child next hf kept work size =>
    rw [after_of_work (work_of_update work)]
    refine ⟨?_, kept.pipes⟩
    have hw := work_of_getElem? hp
    generalize p.task = τ at hf hw
    cases hf with
    | line c' => exact .line
    | left reading writing l r =>
      obtain ⟨a, ha, hs⟩ := h.exists_stage hw (by rintro ⟨e, h | h⟩ <;> cases h) (by rintro ⟨⟩)
      rw [ha]
      cases hs with
      | forkLeft splits => exact .side ha splits
    | right reading l r =>
      obtain ⟨a, ha, hs⟩ := h.exists_stage hw (by rintro ⟨e, h | h⟩ <;> cases h) (by rintro ⟨⟩)
      rw [ha]
      cases hs with
      | forkRight splits => exact .side ha splits

/-- What is added to the layout changes nothing for the places of other processes. -/
theorem Arranged.agrees_of_grows (h : Arranged c D₀ L s) {L' : Layout} {q : Pid} {b : Address}
    (hg : L.Grows c s t pid L') (hne : q ≠ pid) (hq : L.place q = some b) : L.Agrees L' b := by
  cases hg with
  | same => exact .refl L b
  | line => exact agrees_enter h.new_not_placed (by rintro d ⟨⟩)
  | side place splits =>
    refine agrees_enter h.new_not_placed fun d heq => ?_
    obtain ⟨-, rfl⟩ := List.cons.inj heq
    exact hne (h.inj q pid _ hq place)
  | pipe place childless lt => exact h.agrees_make_of place childless _ hne hq
  | opened place childless => exact h.agrees_take_of place childless _ hne hq

/-- A process keeps its place. -/
theorem Arranged.place_of_grows (h : Arranged c D₀ L s) {L' : Layout} {q : Pid} {b : Address}
    (hg : L.Grows c s t pid L') (hq : L.place q = some b) : L'.place q = some b := by
  have hne : q ≠ s.processes.size := Nat.ne_of_lt (h.placed q b hq).2
  cases hg with
  | same | pipe | opened => exact hq
  | line => rw [place_enter, Function.update_of_ne hne, hq]
  | side => rw [place_enter, Function.update_of_ne hne, hq]

/-- A process that had no place and has one now was made by the step. -/
theorem Layout.Grows.eq_size {L' : Layout} {q : Pid} {b : Address} (hg : L.Grows c s t pid L')
    (hq : L.place q = none) (hq' : L'.place q = some b) : q = s.processes.size := by
  by_contra hne
  have hplace : L'.place q = L.place q := by
    cases hg with
    | same | pipe | opened => rfl
    | line => rw [place_enter, Function.update_of_ne hne]
    | side => rw [place_enter, Function.update_of_ne hne]
  rw [hplace, hq] at hq'
  cases hq'

theorem System.piped_of_traced (h : s.Idle D₀) (ht : Traced m (s.setShellTask (.execute c)) t L) :
    L.Piped t := by
  induction ht with
  | start => exact piped_empty _
  | step hprev hstep ih =>
    obtain ⟨hg, hle⟩ := (arranged_of_traced h hprev).grows hstep
    exact ih.of_grows hg hle

/-! ## Opened files -/

/-- At every place of a pipe with a process below it, all redirections have been opened. -/
def Layout.AllOpened (c : Command) (L : Layout) : Prop :=
  ∀ q d a, L.place q = some (d :: a) → (c.redirectionsAt a).length = (L.opened a).length

theorem Splits.length_redirectionsAt {left right : Command} {p : Nat}
    (h : Splits c L a left right p) : (c.redirectionsAt a).length = (L.opened a).length := by
  obtain ⟨k, hk, -, hlength⟩ := h.part
  rw [Command.redirectionsAt_eq hk, hlength]

theorem Layout.AllOpened.of_grows {L' : Layout} (h : L.AllOpened c) (hg : L.Grows c s t pid L') :
    L'.AllOpened c := by
  intro q d b hq
  cases hg with
  | same => exact h q d b hq
  | pipe place childless lt => exact h q d b hq
  | line =>
    rw [place_enter, Function.update_apply] at hq
    split at hq
    · cases hq
    · exact h q d b hq
  | side place splits =>
    rw [place_enter, Function.update_apply] at hq
    split at hq
    · obtain ⟨-, rfl⟩ := List.cons.inj (Option.some.inj hq)
      exact splits.length_redirectionsAt
    · exact h q d b hq
  | @opened a o place childless =>
    have hne : b ≠ a := by
      rintro rfl
      exact childless q d hq
    have hsame : (L.take a o).opened b = L.opened b := Function.update_of_ne hne _ _
    rw [hsame]
    exact h q d b hq

theorem System.allOpened_of_traced (h : s.Idle D₀)
    (ht : Traced m (s.setShellTask (.execute c)) t L) : L.AllOpened c := by
  induction ht with
  | start => rintro q d a ⟨⟩
  | step hprev hstep ih => exact ih.of_grows ((arranged_of_traced h hprev).grows hstep).1

/-- What the redirections at every place have opened is what opening their paths gave, in a
state on the way, to the process of the place. -/
def System.Came (m : Machine σ) (s : System σ) (c : Command) (L : Layout) : Prop :=
  ∀ (a : Address) (i : Nat) (r : Redirection) (o : Stream),
    (c.redirectionsAt a)[i]? = some r → (L.opened a)[i]? = some o →
    ∃ (u v : System σ) (K : Layout) (pid : Pid) (p : Process σ), Traced m s u K ∧
      K.place pid = some a ∧ u.processes[pid]? = some p ∧
      u.openStream p r.path r.direction.mode some = .ok (o, v)

/-- The step that opens a file for the next redirection of a place is the only one that adds
to the files of the layout. -/
theorem Arranged.opened_after (h : Arranged c D₀ L s) (hstep : s.step? m pid = some t) :
    (L.after t pid).opened = L.opened ∨ ∃ a p r o v, L.place pid = some a ∧
      s.processes[pid]? = some p ∧ (c.redirectionsAt a)[(L.opened a).length]? = some r ∧
      s.openStream p r.path r.direction.mode some = .ok (o, v) ∧
      (L.after t pid).opened = Function.update L.opened a (L.opened a ++ [o]) ∧
      ∃ rs inner, t.work pid = some (.install p.descriptors.lowestFree r rs inner,
        p.descriptors.set p.descriptors.lowestFree ⟨o, true⟩) := by
  obtain ⟨p, hp, hm⟩ := move_of_step? hstep
  cases hm with
  | fork child next hf kept work size =>
    rw [after_of_work (work_of_update work)]
    refine .inl ?_
    generalize p.task = τ at hf
    cases hf <;> rfl
  | resume child e D' D τ ended hr kept work size =>
    rw [after_of_work (work_of_update work)]
    refine .inl ?_
    generalize p.task = τ' at hr
    cases hr <;> rfl
  | turn τ D ht kept work size made =>
    rw [after_of_work (work_of_update work)]
    cases ht with
    | pipes task added =>
      rw [note_forkLeft added]
      exact .inl rfl
    | @opens r rs inner o v task hopen =>
      have hw := work_of_getElem? hp
      rw [task] at hw
      obtain ⟨a, ha, hs⟩ := h.exists_stage hw (by rintro ⟨e, h | h⟩ <;> cases h) (by rintro ⟨⟩)
      refine .inr ⟨a, p, r, o, v, ha, hp, ?_, hopen, ?_, rs, inner, work_of_update work⟩
      · cases hs with
        | open_ part rest opened =>
          rw [Command.redirectionsAt_eq part, rest, ← opened]
          simp
      · rw [ha, Option.getD_some, note_install p.descriptors r rs inner o]
        rfl
    | _ => exact .inl rfl

theorem System.came_of_traced (h : s.Idle D₀) (ht : Traced m (s.setShellTask (.execute c)) t L) :
    Came m (s.setShellTask (.execute c)) c L := by
  induction ht with
  | start =>
    intro a i r o _ ho
    simp at ho
  | @step _ _ K _ hprev hstep ih =>
    rcases (arranged_of_traced h hprev).opened_after hstep with
      heq | ⟨a, p, r, o, v, ha, hp, hr, hopen, heq, -⟩
    · intro b i r o hr ho
      rw [heq] at ho
      exact ih b i r o hr ho
    · intro b i r' o' hr' ho'
      rw [heq] at ho'
      rcases eq_or_ne b a with rfl | hne
      · rw [Function.update_self] at ho'
        rw [List.getElem?_append] at ho'
        split at ho'
        · exact ih b i r' o' hr' ho'
        rw [List.getElem?_singleton] at ho'
        split at ho'
        · obtain rfl := Option.some.inj ho'
          obtain rfl : i = (K.opened b).length := by omega
          obtain rfl := Option.some.inj (hr.symm.trans hr')
          exact ⟨_, v, K, _, p, hprev, ha, hp, hopen⟩
        · cases ho'
      · rw [Function.update_of_ne hne] at ho'
        exact ih b i r' o' hr' ho'

/-! ## A line -/

namespace System

theorem Reachable.trans (hst : Reachable m s t) (htu : Reachable m t u) : Reachable m s u := by
  induction htu with
  | refl => exact hst
  | step _ hstep ih => exact .step ih hstep

theorem reachable_round (pids : List Pid) (moved : Bool) (s : System σ) :
    Reachable m s (round m pids (s, moved)).1 := by
  induction pids generalizing moved s with
  | nil => exact .refl
  | cons pid pids ih =>
    rw [round]
    split
    · rename_i t ht
      exact (Reachable.step .refl ⟨pid, ht⟩).trans (ih true t)
    · exact ih moved s

theorem reachable_run (n : Nat) (s : System σ) : Reachable m s (run m n s) := by
  induction n generalizing s with
  | zero => exact .refl
  | succ n ih =>
    rw [run]
    split
    · exact .refl
    have hround := reachable_round (m := m) (List.range s.processes.size) false s
    split
    · rename_i t ht
      rw [ht] at hround
      exact hround.trans (ih t)
    · rename_i t ht
      rw [ht] at hround
      exact hround

/-- A program begins with what its process has kept. -/
theorem program_descriptors {argv : List Bytes} {state : σ} {D' : Descriptors}
    (hw : s.work pid = some (.run (.exec argv), D)) (hstep : s.step? m pid = some t)
    (ht : t.work pid = some (.program state, D')) : D' = D.acrossExec := by
  obtain ⟨p, hp, hm⟩ := move_of_step? hstep
  obtain ⟨htask, rfl⟩ := work_inj (work_of_getElem? hp) hw
  cases hm with
  | turn τ D hτ kept work size made =>
    obtain ⟨rfl, rfl⟩ := work_inj (work_of_update work) ht
    cases hτ with
    | loads task => rfl
    | _ task =>
      rw [htask] at task
      cases task
  | fork child next hf kept work size =>
    rw [htask] at hf
    cases hf
  | resume child e D' D τ ended hr kept work size =>
    rw [htask] at hr
    cases hr

/-- Every process of a line that is to become a program stands at a leaf of the command tree,
with all redirections there and above opened. What it keeps of its descriptors is the wiring of that
place over what a program of the shell's own would keep, and the program it becomes has just
that. Pipes of different places are different, and every file of the wiring is what opening
its path gave. The shell's descriptors are the same all the time, and so after the line. -/
theorem descriptors_eq_wiring (hs : s.Idle D₀) (m : Machine σ) (c : Command) :
    (∃ τ, (execute m c s).2.work shell = some (τ, D₀)) ∧
      ∀ t, Reachable m (s.setShellTask (.execute c)) t →
        ∃ L, Traced m (s.setShellTask (.execute c)) t L ∧ (∃ τ, t.work shell = some (τ, D₀)) ∧
          (∀ a b p, L.pipe a = some p → L.pipe b = some p → a = b) ∧
          Came m (s.setShellTask (.execute c)) c L ∧
          ∀ pid program arguments D,
            t.work pid = some (.run (.exec (program :: arguments)), D) →
              ∃ a k, L.place pid = some a ∧ c.part? a = some k ∧
                k.unwrap.1 = .exec (program :: arguments) ∧
                (∀ d b, d :: b <:+ a → ∃ p, L.pipe b = some p) ∧
                (∀ b, b <:+ a → (c.redirectionsAt b).length = (L.opened b).length) ∧
                D.acrossExec.get? = L.wiring c D₀.acrossExec.get? a ∧
                ∀ u state D', t.step? m pid = some u → u.work pid = some (.program state, D') →
                  D'.get? = L.wiring c D₀.acrossExec.get? a := by
  refine ⟨?_, fun t ht => ?_⟩
  · obtain ⟨L, hL⟩ := exists_traced (reachable_run (m := m) patience (s.setShellTask (.execute c)))
    obtain ⟨τ, hτ, -⟩ := (arranged_of_traced hs hL).atShell
    exact ⟨τ, hτ⟩
  obtain ⟨L, hL⟩ := exists_traced ht
  have ha := arranged_of_traced hs hL
  have hp := piped_of_traced hs hL
  obtain ⟨τ, hτ, -⟩ := ha.atShell
  refine ⟨L, hL, ⟨τ, hτ⟩, hp.inj, came_of_traced hs hL, ?_⟩
  intro pid program arguments D hw
  obtain ⟨a, hpid, hstage⟩ := ha.exists_stage hw (by rintro ⟨e, h | h⟩ <;> cases h) (by rintro ⟨⟩)
  obtain ⟨k, done, part, rest, opened, table⟩ : ∃ k done, c.part? a = some k ∧
      k.unwrap = (.exec (program :: arguments), done ++ []) ∧
      done.length = (L.opened a).length ∧ D.get? = L.wiring c D₀.get? a := by
    cases hstage with
    | run part rest opened childless table => exact ⟨_, _, part, rest, opened, table⟩
  have hkeeps : D.acrossExec.get? = L.wiring c D₀.acrossExec.get? a := by
    rw [Table.inherited_get?, table, inherited_wiring, ← Table.inherited_get?]
  refine ⟨a, k, hpid, part, by rw [rest], ?_, ?_, hkeeps, ?_⟩
  · intro d b hsuffix
    obtain ⟨r, hr⟩ := ha.exists_place_of_suffix hpid hsuffix
    exact hp.above r d b hr
  · intro b hsuffix
    obtain ⟨above, rfl⟩ := hsuffix
    rcases List.eq_nil_or_concat above with rfl | ⟨above, d, rfl⟩
    · rw [List.nil_append] at part opened
      rw [Command.redirectionsAt_eq part, rest, List.append_nil, opened]
    · have hd : d :: b <:+ above.concat d ++ b := ⟨above, by simp⟩
      obtain ⟨r, hr⟩ := ha.exists_place_of_suffix hpid hd
      exact allOpened_of_traced hs hL r d b hr
  · intro u state D' hstep hu
    rw [program_descriptors hw hstep hu, hkeeps]

/-- The state after steps of the processes in the list, if they can be taken. -/
def steps (m : Machine σ) : List Pid → System σ → Option (System σ)
  | [], s => some s
  | pid :: pids, s => (s.step? m pid).bind (steps m pids)

theorem reachable_of_steps {pids : List Pid} (h : steps m pids s = some t) : Reachable m s t := by
  induction pids generalizing s with
  | nil =>
    obtain rfl := Option.some.inj h
    exact .refl
  | cons pid pids ih =>
    obtain ⟨u, hu, ht⟩ := Option.bind_eq_some_iff.mp h
    exact (Reachable.step .refl ⟨pid, hu⟩).trans (ih ht)

/-- Programs that end at once. -/
def brief : Machine Unit where
  load _ _ _ := .ok ()
  act _ := .exit 0

/-- A shell with descriptor 2 alone. -/
def bare : System Unit := ((boot Files.root 0 []).closeInShell 0).closeInShell 1

/-- A pipe between two programs. -/
def couple : Command := .pipe (.exec [[0x61]]) (.exec [[0x62]])

theorem idle_bare : bare.Idle ⟨[none, none, some ⟨.file 2, false⟩]⟩ where
  atShell := ⟨_, rfl⟩
  other q τ D hq hw := by
    have hlt : q < 1 := lt_of_work_eq_some hw
    exact absurd (Nat.lt_one_iff.mp hlt) hq

/-- Both ends of the pipe get the numbers that they are to have, and the reading end is all that
the program on the right keeps besides descriptor 2. -/
theorem descriptors_eq_wiring_bare : ∃ (t : System Unit) (D : Descriptors) (L : Layout)
    (a : Address), Reachable brief (bare.setShellTask (.execute couple)) t ∧
    t.work 3 = some (.run (.exec [[0x62]]), D) ∧ L.place 3 = some a ∧
      D.acrossExec.get? =
        L.wiring couple (Descriptors.get? ⟨[none, none, some ⟨.file 2, false⟩]⟩) a ∧
      D.acrossExec = ⟨[some ⟨.pipeReader 0, false⟩, none, some ⟨.file 2, false⟩]⟩ := by
  obtain ⟨t, ht, hw⟩ : ∃ t, steps brief [0, 1, 1, 1, 1, 3] (bare.setShellTask (.execute couple)) =
      some t ∧ t.work 3 = some (.run (.exec [[0x62]]),
        ⟨[some ⟨.pipeReader 0, false⟩, none, some ⟨.file 2, false⟩]⟩) := ⟨_, rfl, rfl⟩
  obtain ⟨L, -, -, -, -, h⟩ :=
    (descriptors_eq_wiring idle_bare brief couple).2 t (reachable_of_steps ht)
  obtain ⟨a, k, hplace, -, -, -, -, hD, -⟩ := h 3 _ _ _ hw
  exact ⟨t, _, L, a, reachable_of_steps ht, hw, hplace, hD, rfl⟩

end System

end LineShell
