import LineShell.Proofs.Stage

/-!
# No step leaves the stages

`Arranged.step` : a step of any process leads from an arranged state to an arranged one. A
process that goes on alone comes to its next stage, and nothing that others depend on
changes, because nobody is below its place yet when a pipe is made or a file is opened there
(`Arranged.not_below`).
-/

namespace LineShell

open LineShell.System

variable {σ : Type} {c : Command} {D₀ D D' : Descriptors} {T S : Table} {L L' : Layout}
  {a b : Address} {τ : Task σ} {s t : System σ} {m : Machine σ} {pid q : Pid} {p : Process σ}

namespace Layout

theorem after_eq (hw : t.work pid = some (τ, D)) (hp : L.place pid = some a) :
    L.after t pid = L.note a τ D := by
  rw [after, hw, hp, Option.getD_some]

theorem ne_of_cons_suffix {d : Side} (h : d :: b <:+ a) : b ≠ a := by
  rintro rfl
  have hle := h.length_le
  rw [List.length_cons] at hle
  omega

theorem wiring_enter (L : Layout) (q : Pid) (b : Address) :
    (L.enter q b).wiring c T a = L.wiring c T a := by
  have hentry : (L.enter q b).entry c T a = L.entry c T a :=
    entry_of_above a fun _ _ _ => ⟨rfl, rfl⟩
  rw [wiring, wiring, hentry]
  rfl

theorem wiring_make (L : Layout) (a : Address) (n : Nat) :
    (L.make a n).wiring c T a = L.wiring c T a := by
  have hentry : (L.make a n).entry c T a = L.entry c T a :=
    entry_of_above a fun _ _ hs => ⟨Function.update_of_ne (ne_of_cons_suffix hs) _ _, rfl⟩
  rw [wiring, wiring, hentry]
  rfl

theorem entry_take (L : Layout) (a : Address) (o : Stream) :
    (L.take a o).entry c T a = L.entry c T a :=
  entry_of_above a fun _ _ hs => ⟨rfl, Function.update_of_ne (ne_of_cons_suffix hs) _ _⟩

theorem opened_take (L : Layout) (a : Address) (o : Stream) :
    (L.take a o).opened a = L.opened a ++ [o] :=
  Function.update_self _ _ _

/-- The pipe that a process of a place has made is noted there. -/
theorem note_forkLeft {left right : Command} {limit n reading writing : Nat}
    (hadd : D.addPipe limit n = .ok (reading, writing, D')) :
    L.note a (.forkLeft reading writing left right : Task σ) D' = L.make a n := by
  obtain ⟨-, -, -, hD⟩ := Descriptors.addPipe_ok hadd
  simp [note, hD]

/-- The file that a process of a place has opened is noted there. -/
theorem note_install (D : Descriptors) (r : Redirection) (rs : List Redirection) (inner : Command)
    (o : Stream) : L.note a (.install D.lowestFree r rs inner : Task σ)
      (D.set D.lowestFree ⟨o, true⟩) = L.take a o := by
  simp [note, Descriptors.get?_set_eq]

end Layout

open Layout

/-! ## The next stage -/

namespace Stage

variable {k left right inner : Command} {r : Redirection} {rs : List Redirection} {o : Stream}
  {handle limit n reading writing : Nat}

theorem childless_of_run (h : Stage c T L a S (.run k : Task σ)) : L.Childless a := by
  cases h with
  | run part rest opened childless table => exact childless

theorem childless_of_open (h : Stage c T L a S (.open_ rs inner : Task σ)) : L.Childless a := by
  cases h with
  | open_ part rest opened childless table => exact childless

theorem unwrap (h : Stage c T L a S (.run k : Task σ)) :
    Stage c T L a S (.open_ k.unwrap.2 k.unwrap.1 : Task σ) := by
  cases h with
  | run part rest opened childless table => exact .open_ part rest opened childless table

/-- Once all redirections are in place, the command inside them runs. -/
theorem settle (h : Stage c T L a S (.open_ [] inner : Task σ)) :
    Stage c T L a S (.run inner : Task σ) := by
  cases h with
  | @open_ k _ done _ part rest opened childless table =>
    have hinner : inner.unwrap = (inner, []) := by
      have hu := k.unwrap_unwrap
      rwa [rest] at hu
    exact .run part (by rw [rest, hinner]) opened childless table

/-- A pipe is made. -/
theorem addPipe (h : Stage c T L a D.get? (.run (.pipe left right) : Task σ))
    (hadd : D.addPipe limit n = .ok (reading, writing, D')) :
    Stage c T (L.make a n) a D'.get? (.forkLeft reading writing left right : Task σ) := by
  cases h with
  | @run k _ done part rest opened childless table =>
    obtain ⟨freeReading, freeWriting, ne, hD⟩ := Descriptors.addPipe_ok hadd
    have hk : k.unwrap.2.length = (L.opened a).length := by
      simp [rest, Command.unwrap, opened]
    have splits : Splits c (L.make a n) a left right n :=
      ⟨⟨k, part, by rw [rest]; rfl, hk⟩, Function.update_self _ _ _⟩
    rw [table] at freeReading freeWriting hD
    refine .forkLeft splits childless ?_ ?_ ne ?_
    · rwa [wiring_make]
    · rwa [wiring_make]
    · rwa [wiring_make]

/-- The file of a redirection is opened. -/
theorem openFile (h : Stage c T L a D.get? (.open_ (r :: rs) inner : Task σ)) (o : Stream) :
    Stage c T (L.take a o) a (D.set D.lowestFree ⟨o, true⟩).get?
      (.install D.lowestFree r rs inner : Task σ) := by
  cases h with
  | @open_ k _ done _ part rest opened childless table =>
    have hwiring : L.wiring c T a = redirected (done.zip (L.opened a)) (L.entry c T a) :=
      wiring_eq part rest opened
    refine .install part rest (opened_take _ _ _) opened childless ?_ ?_
    · rw [entry_take, ← hwiring, ← table, Descriptors.get?_lowestFree]
    · rw [entry_take, ← hwiring, ← table, Descriptors.get?_set_eq]

/-- The file of a redirection is put in its place. -/
theorem install_ok (h : Stage c T L a D.get? (.install handle r rs inner : Task σ))
    (hi : D.install limit handle r.descriptor = .ok D') :
    Stage c T L a D'.get? (.open_ rs inner : Task σ) := by
  cases h with
  | @install k _ done _ _ _ os o part rest opened length childless free table =>
    have hD := Descriptors.install_fresh table free hi
    have hlength : (done ++ [r]).length = (L.opened a).length := by
      simp [opened, length]
    have hrest : k.unwrap = (inner, (done ++ [r]) ++ rs) := by
      rw [rest, List.append_assoc]
      rfl
    refine .open_ part hrest hlength childless ?_
    rw [hD, wiring_eq part hrest hlength, opened, List.zip_append length]
    exact (redirected_concat _ r o _).symm

/-- The process of a pipe closes the writing end. -/
theorem closeWriting_ok {leftPid : Pid}
    (h : Stage c T L a D.get? (.closeWriting reading writing leftPid right : Task σ)) :
    Stage c T L a (D.close writing).get? (.forkRight reading leftPid right : Task σ) := by
  cases h with
  | closeWriting splits placed alone freeReading freeWriting ne table =>
    refine .forkRight splits placed alone freeReading (Descriptors.get?_close_fresh table ?_)
    rwa [Function.update_of_ne ne.symm]

/-- The process of a pipe closes the reading end. -/
theorem closeReading_ok {leftPid rightPid : Pid}
    (h : Stage c T L a D.get? (.closeReading reading leftPid rightPid : Task σ)) :
    Stage c T L a (D.close reading).get? (.awaitLeft leftPid rightPid : Task σ) := by
  cases h with
  | closeReading splits placed placedRight freeReading table =>
    exact .awaitLeft splits placed placedRight (Descriptors.get?_close_fresh table freeReading)

/-- The process on the left of a pipe closes the reading end. -/
theorem leaveReading_ok (h : Stage c T L a D.get? (.leaveReading reading writing k : Task σ)) :
    Stage c T L a (D.close reading).get? (.attach writing 1 k : Task σ) := by
  cases h with
  | leaveReading cons part opened childless pipe freeReading freeWriting ne table =>
    rw [Function.update_comm ne] at table
    refine .attach cons rfl part opened childless pipe freeWriting
      (Descriptors.get?_close_fresh table ?_)
    rwa [Function.update_of_ne ne]

/-- The end of a pipe is put in its place. -/
theorem attach_ok {target : Nat} (h : Stage c T L a D.get? (.attach handle target k : Task σ))
    (hi : D.install limit handle target = .ok D') : Stage c T L a D'.get? (.run k : Task σ) := by
  cases h with
  | @attach _ d b _ _ _ cons eq part opened childless pipe free table =>
    have hD := Descriptors.install_fresh table free hi
    subst cons eq
    have hentry : L.wiring c T (d :: b) = L.entry c T (d :: b) := wiring_of_opened_eq_nil opened
    have hrest : k.unwrap = (k.unwrap.1, [] ++ k.unwrap.2) := rfl
    have hlength : ([] : List Redirection).length = (L.opened (d :: b)).length := by
      rw [opened, List.length_nil, List.length_nil]
    refine .run part hrest hlength childless ?_
    rw [hD, hentry, entry_cons, pipe]
    rfl

end Stage

/-! ## What stays -/

namespace Arranged

/-- Above every process there are processes at all places. -/
theorem exists_place_of_suffix (h : Arranged c D₀ L s) (hq : L.place q = some b) (hs : a <:+ b) :
    ∃ r, L.place r = some a := by
  induction b generalizing q with
  | nil =>
    obtain rfl := List.suffix_nil.mp hs
    exact ⟨q, hq⟩
  | cons e b ih =>
    rcases List.suffix_cons_iff.mp hs with rfl | hs
    · exact ⟨q, hq⟩
    · obtain ⟨r, hr⟩ := h.parent q e b hq
      exact ih hr hs

/-- Nobody is anywhere below a place with no process right below it. -/
theorem not_below (h : Arranged c D₀ L s) (hc : L.Childless a) (hq : L.place q = some b) :
    ∀ d, ¬d :: a <:+ b := by
  intro d hs
  obtain ⟨r, hr⟩ := h.exists_place_of_suffix hq hs
  exact hc r d hr

theorem shell_not_placed (h : Arranged c D₀ L s) : L.place shell = none := by
  rcases hs : L.place shell with _ | a
  · rfl
  · exact absurd rfl (h.placed shell a hs).1

theorem shell_ne_size (h : Arranged c D₀ L s) : shell ≠ s.processes.size := by
  obtain ⟨τ, hτ, -⟩ := h.atShell
  exact Nat.ne_of_lt (lt_of_work_eq_some hτ)

theorem new_not_placed (h : Arranged c D₀ L s) : L.place s.processes.size = none := by
  rcases hs : L.place s.processes.size with _ | a
  · rfl
  · exact absurd (h.placed _ a hs).2 (Nat.lt_irrefl _)

/-- A process of a place goes on alone. -/
theorem set (h : Arranged c D₀ L s) (hpid : L.place pid = some a)
    (hw : t.work = Function.update s.work pid (some (τ, D)))
    (hsize : t.processes.size = s.processes.size) (hplace : L'.place = L.place)
    (hagrees : ∀ q b, q ≠ pid → L.place q = some b → L.Agrees L' b)
    (hrest : ∀ b, b ≠ a → L'.opened b = L.opened b ∧ L'.pipe b = L.pipe b)
    (hstage : Stage c D₀.get? L' a D.get? τ) : Arranged c D₀ L' t := by
  have hne : shell ≠ pid := (h.placed pid a hpid).1.symm
  refine ⟨?_, ?_, ?_, ?_, ?_, ?_, ?_⟩
  · obtain ⟨τ', hτ', hs⟩ := h.atShell
    refine ⟨τ', by rw [hw, Function.update_of_ne hne, hτ'], ?_⟩
    cases hs with
    | begins none => exact .begins (by rwa [hplace])
    | waits placed => exact .waits (by rwa [hplace])
    | done r => exact .done r
  · rw [hplace, hsize]
    exact h.placed
  · rw [hplace]
    exact h.inj
  · intro q b τ' D' hq hwork
    rw [hplace] at hq
    rcases eq_or_ne q pid with rfl | hqne
    · obtain rfl := Option.some.inj (hq.symm.trans hpid)
      obtain ⟨rfl, rfl⟩ := work_inj (work_of_update hw) hwork
      exact hstage
    · rw [hw, Function.update_of_ne hqne] at hwork
      exact (h.stage q b τ' D' hq hwork).of_agrees (hagrees q b hqne hq)
  · intro q τ' D' hqs hq hwork
    rw [hplace] at hq
    have hqne : q ≠ pid := by
      rintro rfl
      rw [hpid] at hq
      cases hq
    rw [hw, Function.update_of_ne hqne] at hwork
    exact h.other q τ' D' hqs hq hwork
  · rw [hplace]
    exact h.parent
  · intro b hb
    rw [hplace] at hb
    have hba : b ≠ a := by
      rintro rfl
      exact hb pid hpid
    rw [(hrest b hba).1, (hrest b hba).2]
    exact h.fresh b hb

/-- A process of a place goes on alone, and nothing new is known. -/
theorem set_same (h : Arranged c D₀ L s) (hpid : L.place pid = some a)
    (hw : t.work = Function.update s.work pid (some (τ, D)))
    (hsize : t.processes.size = s.processes.size) (hstage : Stage c D₀.get? L a D.get? τ) :
    Arranged c D₀ L t :=
  h.set hpid hw hsize rfl (fun _ _ _ _ => .refl L _) (fun _ _ => ⟨rfl, rfl⟩) hstage

/-- A process is made for a place at which there is nobody. What is true of the places stays
true, and the rest is what has to be true of the processes. -/
theorem enter (h : Arranged c D₀ L s) (hfree : ∀ q, L.place q ≠ some b)
    (hparent : ∀ d a, b = d :: a → ∃ r, L.place r = some a)
    (hsize : t.processes.size = s.processes.size + 1)
    (hshell : ∃ τ, t.work shell = some (τ, D₀) ∧ ShellStage c (L.enter s.processes.size b) τ)
    (hnew : ∀ τ D, t.work s.processes.size = some (τ, D) →
      Stage c D₀.get? (L.enter s.processes.size b) b D.get? τ)
    (hstage : ∀ q a τ D, L.place q = some a → t.work q = some (τ, D) →
      Stage c D₀.get? (L.enter s.processes.size b) a D.get? τ)
    (hother : ∀ q τ D, q ≠ shell → q ≠ s.processes.size → L.place q = none →
      t.work q = some (τ, D) → τ.IsOver ∧ ∀ n, D.get? n = none) :
    Arranged c D₀ (L.enter s.processes.size b) t := by
  have hself : (L.enter s.processes.size b).place s.processes.size = some b :=
    Function.update_self _ _ _
  have hplace : ∀ q, q ≠ s.processes.size → (L.enter s.processes.size b).place q = L.place q :=
    fun q hq => Function.update_of_ne hq _ _
  have hkeep : ∀ q a, L.place q = some a → (L.enter s.processes.size b).place q = some a := by
    intro q a hq
    rw [hplace q (Nat.ne_of_lt (h.placed q a hq).2), hq]
  refine ⟨hshell, ?_, ?_, ?_, ?_, ?_, ?_⟩
  · intro q a hq
    rw [hsize]
    rcases eq_or_ne q s.processes.size with rfl | hne
    · exact ⟨h.shell_ne_size.symm, Nat.lt_succ_self _⟩
    · rw [hplace q hne] at hq
      exact ⟨(h.placed q a hq).1, Nat.lt_succ_of_lt (h.placed q a hq).2⟩
  · intro q r a hq hr
    rcases eq_or_ne q s.processes.size with rfl | hqne
    · rcases eq_or_ne r s.processes.size with rfl | hrne
      · rfl
      · rw [hself] at hq
        rw [hplace r hrne, ← hq] at hr
        exact absurd hr (hfree r)
    · rcases eq_or_ne r s.processes.size with rfl | hrne
      · rw [hself] at hr
        rw [hplace q hqne, ← hr] at hq
        exact absurd hq (hfree q)
      · exact h.inj q r a (hplace q hqne ▸ hq) (hplace r hrne ▸ hr)
  · intro q a τ D hq hwork
    rcases eq_or_ne q s.processes.size with rfl | hne
    · obtain rfl := Option.some.inj (hself.symm.trans hq)
      exact hnew τ D hwork
    · exact hstage q a τ D (hplace q hne ▸ hq) hwork
  · intro q τ D hqs hq hwork
    have hne : q ≠ s.processes.size := by
      rintro rfl
      rw [hself] at hq
      cases hq
    exact hother q τ D hqs hne (hplace q hne ▸ hq) hwork
  · intro q d a hq
    rcases eq_or_ne q s.processes.size with rfl | hne
    · obtain ⟨r, hr⟩ := hparent d a (Option.some.inj (hself.symm.trans hq))
      exact ⟨r, hkeep r a hr⟩
    · obtain ⟨r, hr⟩ := h.parent q d a (hplace q hne ▸ hq)
      exact ⟨r, hkeep r a hr⟩
  · intro a ha
    exact h.fresh a fun q hq => ha q (hkeep q a hq)

/-- A process of a place makes another for a place below. -/
theorem fork (h : Arranged c D₀ L s) {d : Side} {child next : Task σ}
    (hpid : L.place pid = some a) (hfree : ∀ q, L.place q ≠ some (d :: a))
    (hw : t.work = Function.update (Function.update s.work s.processes.size (some (child, D)))
      pid (some (next, D)))
    (hsize : t.processes.size = s.processes.size + 1)
    (hnext : Stage c D₀.get? (L.enter s.processes.size (d :: a)) a D.get? next)
    (hchild : Stage c D₀.get? (L.enter s.processes.size (d :: a)) (d :: a) D.get? child) :
    Arranged c D₀ (L.enter s.processes.size (d :: a)) t := by
  obtain ⟨hshell, hlt⟩ := h.placed pid a hpid
  have hkeep : ∀ q, q ≠ pid → q ≠ s.processes.size → t.work q = s.work q := by
    intro q hq hne
    rw [hw, Function.update_of_ne hq, Function.update_of_ne hne]
  refine h.enter hfree ?_ hsize ?_ ?_ ?_ ?_
  · intro e b heq
    obtain ⟨-, rfl⟩ := List.cons.inj heq
    exact ⟨pid, hpid⟩
  · obtain ⟨τ, hτ, hs⟩ := h.atShell
    refine ⟨τ, by rw [hkeep shell hshell.symm h.shell_ne_size, hτ], ?_⟩
    cases hs with
    | begins none =>
      rw [none pid] at hpid
      cases hpid
    | @waits line placed =>
      have hne : line ≠ s.processes.size := Nat.ne_of_lt (h.placed line _ placed).2
      exact .waits (by rw [place_enter, Function.update_of_ne hne, placed])
    | done r => exact .done r
  · intro τ' D' hwork
    rw [hw, Function.update_of_ne (Nat.ne_of_gt hlt), Function.update_self] at hwork
    obtain ⟨rfl, rfl⟩ := Prod.mk.inj (Option.some.inj hwork)
    exact hchild
  · intro q b τ' D' hq hwork
    rcases eq_or_ne q pid with rfl | hqpid
    · obtain rfl := Option.some.inj (hpid.symm.trans hq)
      obtain ⟨rfl, rfl⟩ := work_inj (work_of_update hw) hwork
      exact hnext
    · rw [hkeep q hqpid (Nat.ne_of_lt (h.placed q b hq).2)] at hwork
      refine (h.stage q b τ' D' hq hwork).of_agrees (agrees_enter h.new_not_placed ?_)
      rintro e heq
      exact hqpid (h.inj q pid b hq ((List.cons.inj heq).2 ▸ hpid))
  · intro q τ' D' hqs hne hq hwork
    have hqpid : q ≠ pid := by
      rintro rfl
      rw [hpid] at hq
      cases hq
    rw [hkeep q hqpid hne] at hwork
    exact h.other q τ' D' hqs hq hwork

/-- Of a process that was waited for, nothing changes but that. -/
theorem reap (h : Arranged c D₀ L s) {e : Ending} (hq : s.work q = some (.ended e, D))
    (hw : t.work = Function.update s.work q (some (.reaped e, D)))
    (hsize : t.processes.size = s.processes.size) : Arranged c D₀ L t := by
  have hshell : shell ≠ q := by
    rintro rfl
    obtain ⟨τ, hτ, hs⟩ := h.atShell
    obtain ⟨rfl, rfl⟩ := work_inj hq hτ
    cases hs
  refine ⟨?_, by rw [hsize]; exact h.placed, h.inj, ?_, ?_, h.parent, h.fresh⟩
  · obtain ⟨τ, hτ, hs⟩ := h.atShell
    exact ⟨τ, by rw [hw, Function.update_of_ne hshell, hτ], hs⟩
  · intro r b τ' D' hr hwork
    rw [hw] at hwork
    rcases eq_or_ne r q with rfl | hne
    · rw [Function.update_self] at hwork
      obtain ⟨rfl, rfl⟩ := Prod.mk.inj (Option.some.inj hwork)
      exact .reaped
    · rw [Function.update_of_ne hne] at hwork
      exact h.stage r b τ' D' hr hwork
  · intro r τ' D' hrs hr hwork
    rw [hw] at hwork
    rcases eq_or_ne r q with rfl | hne
    · rw [Function.update_self] at hwork
      obtain ⟨rfl, rfl⟩ := Prod.mk.inj (Option.some.inj hwork)
      exact ⟨⟨e, .inr rfl⟩, (h.other r _ _ hrs hr hq).2⟩
    · rw [Function.update_of_ne hne] at hwork
      exact h.other r τ' D' hrs hr hwork

/-! ## One step -/

theorem agrees_make_of (h : Arranged c D₀ L s) (hpid : L.place pid = some a) (hc : L.Childless a)
    (n : Nat) (hne : q ≠ pid) (hq : L.place q = some b) : L.Agrees (L.make a n) b := by
  refine agrees_make ?_ (h.not_below hc hq)
  rintro rfl
  exact hne (h.inj q pid b hq hpid)

theorem agrees_take_of (h : Arranged c D₀ L s) (hpid : L.place pid = some a) (hc : L.Childless a)
    (o : Stream) (hne : q ≠ pid) (hq : L.place q = some b) : L.Agrees (L.take a o) b := by
  refine agrees_take ?_ (h.not_below hc hq)
  rintro rfl
  exact hne (h.inj q pid b hq hpid)

/-- A process of a place that goes on alone comes to its next stage. -/
theorem turn (h : Arranged c D₀ L s) (hp : s.processes[pid]? = some p)
    (hpid : L.place pid = some a) (ht : Turn m s p τ D)
    (hw : t.work = Function.update s.work pid (some (τ, D)))
    (hsize : t.processes.size = s.processes.size) : Arranged c D₀ (L.note a τ D) t := by
  have hs := h.stage pid a p.task p.descriptors hpid (work_of_getElem? hp)
  cases ht with
  | skips task =>
    rw [task] at hs
    cases hs
  | exits task => exact h.set_same hpid hw hsize .ended
  | refuses task => exact h.set_same hpid hw hsize .complain
  | loads task => exact h.set_same hpid hw hsize .program
  | unwraps task =>
    rw [task] at hs
    exact h.set_same hpid hw hsize hs.unwrap
  | lacksPipe task => exact h.set_same hpid hw hsize .complain
  | pipes task added =>
    rw [task] at hs
    rw [note_forkLeft added]
    exact h.set hpid hw hsize rfl
      (fun q b hne hq => h.agrees_make_of hpid hs.childless_of_run _ hne hq)
      (fun b hb => ⟨rfl, Function.update_of_ne hb _ _⟩) (hs.addPipe added)
  | settles task =>
    rw [task] at hs
    exact h.set_same hpid hw hsize hs.settle
  | lacksFile task => exact h.set_same hpid hw hsize .complain
  | @opens r rs inner stream _ task hopen =>
    rw [task] at hs
    rw [note_install p.descriptors r rs inner stream]
    exact h.set hpid hw hsize rfl
      (fun q b hne hq => h.agrees_take_of hpid hs.childless_of_open _ hne hq)
      (fun b hb => ⟨Function.update_of_ne hb _ _, rfl⟩) (hs.openFile stream)
  | misplaces task => exact h.set_same hpid hw hsize .complain
  | installs task installed =>
    rw [task] at hs
    exact h.set_same hpid hw hsize (hs.install_ok installed)
  | closesWriting task =>
    rw [task] at hs
    exact h.set_same hpid hw hsize hs.closeWriting_ok
  | closesReading task =>
    rw [task] at hs
    exact h.set_same hpid hw hsize hs.closeReading_ok
  | leaves task =>
    rw [task] at hs
    exact h.set_same hpid hw hsize hs.leaveReading_ok
  | misattaches task => exact h.set_same hpid hw hsize .complain
  | attaches task installed =>
    rw [task] at hs
    exact h.set_same hpid hw hsize (hs.attach_ok installed)
  | complains task => exact h.set_same hpid hw hsize .complain
  | hushes task how => exact h.set_same hpid hw hsize .ended
  | goesOn task => exact h.set_same hpid hw hsize .program
  | closes task => exact h.set_same hpid hw hsize .program
  | adds task opened => exact h.set_same hpid hw hsize .program
  | ends task how => exact h.set_same hpid hw hsize .ended

/-- A process of a place that makes another gives it its place. -/
theorem forks (h : Arranged c D₀ L s) {child : Task σ} {next : Pid → Task σ}
    (hp : s.processes[pid]? = some p) (hpid : L.place pid = some a) (hf : Forks p.task child next)
    (hw : t.work = Function.update
      (Function.update s.work s.processes.size (some (child, p.descriptors)))
      pid (some (next s.processes.size, p.descriptors)))
    (hsize : t.processes.size = s.processes.size + 1) :
    Arranged c D₀ (L.note a (next s.processes.size) p.descriptors) t := by
  have hs := h.stage pid a p.task p.descriptors hpid (work_of_getElem? hp)
  have hself : ∀ d : Side,
      (L.enter s.processes.size (d :: a)).place s.processes.size = some (d :: a) :=
    fun d => Function.update_self _ _ _
  have hchildless : ∀ d : Side, (∀ q, L.place q ≠ some (d :: a)) →
      (L.enter s.processes.size (d :: a)).Childless (d :: a) := by
    intro d hd q e hq
    rw [place_enter] at hq
    rcases eq_or_ne q s.processes.size with rfl | hne
    · rw [Function.update_self] at hq
      exact List.cons_ne_self e (d :: a) (Option.some.inj hq).symm
    · rw [Function.update_of_ne hne] at hq
      obtain ⟨r, hr⟩ := h.parent q e _ hq
      exact hd r hr
  generalize htask : p.task = τ at hs hf
  cases hf with
  | line c' => cases hs
  | left reading writing l r =>
    cases hs with
    | forkLeft splits childless freeReading freeWriting ne table =>
      obtain ⟨⟨k, part, hk, hl⟩, pipe⟩ := splits
      have hopened := (h.fresh (.left :: a) fun q => childless q .left).1
      have hright : ∀ q, (L.enter s.processes.size (.left :: a)).place q ≠ some (.right :: a) := by
        intro q hq
        rw [place_enter] at hq
        rcases eq_or_ne q s.processes.size with rfl | hne
        · rw [Function.update_self] at hq
          cases hq
        · rw [Function.update_of_ne hne] at hq
          exact childless q .right hq
      rw [← wiring_enter L s.processes.size (.left :: a)] at freeReading freeWriting table
      refine h.fork hpid (fun q => childless q .left) hw hsize
        (.closeWriting ⟨⟨k, part, hk, hl⟩, pipe⟩ (hself .left) hright freeReading freeWriting ne
          table)
        (.leaveReading rfl (Command.part?_cons part hk) hopened
          (hchildless .left fun q => childless q .left) pipe freeReading freeWriting ne table)
  | right reading l r =>
    cases hs with
    | forkRight splits placed alone freeReading table =>
      obtain ⟨⟨k, part, hk, hl⟩, pipe⟩ := splits
      have hopened := (h.fresh (.right :: a) alone).1
      have hleft : (L.enter s.processes.size (.right :: a)).place l = some (.left :: a) := by
        have hne : l ≠ s.processes.size := Nat.ne_of_lt (h.placed l _ placed).2
        rw [place_enter, Function.update_of_ne hne, placed]
      rw [← wiring_enter L s.processes.size (.right :: a)] at freeReading table
      refine h.fork hpid alone hw hsize
        (.closeReading ⟨⟨k, part, hk, hl⟩, pipe⟩ hleft (hself .right) freeReading table)
        (.attach rfl rfl (Command.part?_cons part hk) hopened (hchildless .right alone) pipe
          freeReading table)

/-- A process of a place that has waited for another goes on. -/
theorem resumes (h : Arranged c D₀ L s) {e : Ending} (hp : s.processes[pid]? = some p)
    (hpid : L.place pid = some a) (hq : s.work q = some (.ended e, D'))
    (hr : Resumes p.descriptors q e p.task τ D)
    (hw : t.work = Function.update (Function.update s.work q (some (.reaped e, D')))
      pid (some (τ, D)))
    (hsize : t.processes.size = s.processes.size) : Arranged c D₀ (L.note a τ D) t := by
  have hs := h.stage pid a p.task p.descriptors hpid (work_of_getElem? hp)
  -- the state between : the other process was waited for, and this one has not gone on yet
  obtain ⟨u, hu⟩ : ∃ u : System σ, u = s.reap q e := ⟨_, rfl⟩
  obtain ⟨cp, hcp, hce, rfl⟩ := work_eq_some_iff.mp hq
  have huw : u.work = Function.update s.work q (some (.reaped e, cp.descriptors)) := by
    rw [hu, reap_eq s hcp, work_setProcess hcp]
  have husize : u.processes.size = s.processes.size := by
    rw [hu, reap_eq s hcp, size_setProcess]
  have hreap := h.reap hq huw husize
  rw [← huw] at hw
  rw [← husize] at hsize
  generalize htask : p.task = τ' at hs hr
  cases hr with
  | line r => cases hs
  | left right told =>
    cases hs with
    | awaitLeft splits placed placedRight table =>
      exact hreap.set_same hpid hw hsize (.awaitRight splits placedRight table)
  | right status told => exact hreap.set_same hpid hw hsize .ended
  | losesLeft right err hn => exact hreap.set_same hpid hw hsize .complain
  | losesRight err hn => exact hreap.set_same hpid hw hsize .complain

/-- The shell goes on with its line. -/
theorem set_shell (h : Arranged c D₀ L s)
    (hw : t.work = Function.update s.work shell (some (τ, D₀)))
    (hsize : t.processes.size = s.processes.size) (hs : ShellStage c L τ) : Arranged c D₀ L t := by
  refine ⟨⟨τ, by rw [hw, Function.update_self], hs⟩, by rw [hsize]; exact h.placed, h.inj, ?_, ?_,
    h.parent, h.fresh⟩
  · intro q a τ' D' hq hwork
    rw [hw, Function.update_of_ne (h.placed q a hq).1] at hwork
    exact h.stage q a τ' D' hq hwork
  · intro q τ' D' hqs hq hwork
    rw [hw, Function.update_of_ne hqs] at hwork
    exact h.other q τ' D' hqs hq hwork

/-- The shell makes the process of its line. -/
theorem fork_shell (h : Arranged c D₀ L s) (hnone : ∀ q, L.place q = none)
    (hw : t.work = Function.update (Function.update s.work s.processes.size (some (.run c, D₀)))
      shell (some (.awaitLine s.processes.size, D₀)))
    (hsize : t.processes.size = s.processes.size + 1) :
    Arranged c D₀ (L.enter s.processes.size []) t := by
  have hempty : ∀ q b, L.place q ≠ some b := by
    intro q b hq
    rw [hnone q] at hq
    cases hq
  refine h.enter (fun q => hempty q []) (by rintro d a ⟨⟩) hsize
    ⟨_, work_of_update hw, .waits (Function.update_self _ _ _)⟩ ?_
    (fun q a τ D hq _ => absurd hq (hempty q a)) ?_
  · intro τ D hwork
    rw [hw, Function.update_of_ne h.shell_ne_size.symm, Function.update_self] at hwork
    obtain ⟨rfl, rfl⟩ := Prod.mk.inj (Option.some.inj hwork)
    have hrest : c.unwrap = (c.unwrap.1, [] ++ c.unwrap.2) := rfl
    have hopened : (L.enter s.processes.size []).opened [] = [] := (h.fresh [] fun q => hempty q []).1
    refine .run rfl hrest ?_ ?_ ?_
    · rw [hopened, List.length_nil, List.length_nil]
    · intro r d hr
      rw [place_enter, Function.update_apply] at hr
      split at hr
      · cases hr
      · exact hempty r _ hr
    · rw [wiring_of_opened_eq_nil hopened, entry_nil]
  · intro q τ D hqs hne hq hwork
    rw [hw, Function.update_of_ne hqs, Function.update_of_ne hne] at hwork
    exact h.other q τ D hqs hq hwork

/-- A step of the shell. -/
theorem step_shell (h : Arranged c D₀ L s) (hp : s.processes[shell]? = some p)
    (hm : Move m s shell p t) : Arranged c D₀ (L.after t shell) t := by
  obtain ⟨τ, hτ, hs⟩ := h.atShell
  obtain ⟨rfl, hD⟩ := work_inj (work_of_getElem? hp) hτ
  have hnot := h.shell_not_placed
  generalize htask : p.task = τ at hs hτ
  cases hm with
  | turn τ' D ht kept work size made =>
    have hafter : ∀ r : ExecResult, t.work shell = some (.executed r, D) → L.after t shell = L := by
      intro r hr
      rw [after, hr]
      rfl
    cases ht with
    | skips task =>
      rw [hafter _ (by rw [work, Function.update_self])]
      exact h.set_shell (hD ▸ work) size (.done _)
    | _ task =>
      rw [task] at htask
      subst htask
      cases hs
  | fork child next hf kept work size =>
    rw [htask] at hf
    cases hs with
    | begins none =>
      cases hf
      have hafter : L.after t shell = L.enter s.processes.size [] := by
        rw [after, work, Function.update_self]
        rfl
      rw [hafter]
      exact h.fork_shell none (hD ▸ work) size
    | waits placed => cases hf
    | done r => cases hf
  | resume child e D' D τ' ended hr kept work size =>
    obtain ⟨cp, hcp, hce, rfl⟩ := work_eq_some_iff.mp ended
    rw [htask] at hr
    cases hs with
    | begins none => cases hr
    | done r => cases hr
    | waits placed =>
      cases hr with
      | line r =>
        have hafter : L.after t shell = L := by
          rw [after, work, Function.update_self]
          rfl
        have huw : (s.reap child e).work =
            Function.update s.work child (some (.reaped e, cp.descriptors)) := by
          rw [reap_eq s hcp, work_setProcess hcp]
        have husize : (s.reap child e).processes.size = s.processes.size := by
          rw [reap_eq s hcp, size_setProcess]
        rw [hafter]
        rw [← huw] at work
        rw [← husize] at size
        exact (h.reap ended huw husize).set_shell (hD ▸ work) size (.done r)

theorem step?_eq_none_of_isOver (hw : s.work pid = some (τ, D)) (ho : τ.IsOver) :
    s.step? m pid = none := by
  obtain ⟨p, hp, rfl, -⟩ := work_eq_some_iff.mp hw
  obtain ⟨e, he | he⟩ := ho <;> simp [step?, hp, he]

/-- A step of any process keeps every process in a stage. -/
theorem step (h : Arranged c D₀ L s) (hstep : s.step? m pid = some t) :
    Arranged c D₀ (L.after t pid) t := by
  obtain ⟨p, hp, hm⟩ := move_of_step? hstep
  rcases eq_or_ne pid shell with rfl | hne
  · exact h.step_shell hp hm
  rcases hpid : L.place pid with _ | a
  · have hover := (h.other pid p.task p.descriptors hne hpid (work_of_getElem? hp)).1
    rw [step?_eq_none_of_isOver (work_of_getElem? hp) hover] at hstep
    cases hstep
  cases hm with
  | turn τ D ht kept work size made =>
    rw [after_eq (work_of_update work) hpid]
    exact h.turn hp hpid ht work size
  | fork child next hf kept work size =>
    rw [after_eq (work_of_update work) hpid]
    exact h.forks hp hpid hf work size
  | resume child e D' D τ ended hr kept work size =>
    rw [after_eq (work_of_update work) hpid]
    exact h.resumes hp hpid ended hr work size

end Arranged

end LineShell
