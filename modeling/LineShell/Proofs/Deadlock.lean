import LineShell.Proofs.Orderly

/-!
# A line comes to its end

A process that takes no step waits : for another to end, for bytes in an empty pipe, or for
room in a full one (`System.Waits`). `Blocked` : it waits for what happens at a pipe above its
place. Where nobody takes a step, every process that has not ended is blocked, from the leaves
of the tree up to its root (`Orderly.blocked`). There is no pipe above the root.

`System.no_deadlock` : an end of a pipe is held on its own side alone once the process of the
pipe waits, and some process takes a step until the line has been executed.
-/

namespace LineShell

open LineShell.System LineShell.Layout

variable {σ : Type} {c : Command} {D₀ D : Descriptors} {L : Layout} {a b : Address} {τ : Task σ}
  {s t : System σ} {m : Machine σ} {pid q : Pid}

/-- The process has made the pipe of its place and has not closed both its ends. -/
def Task.IsPiping : Task σ → Prop
  | .forkLeft _ _ _ _ => True
  | .closeWriting _ _ _ _ => True
  | .forkRight _ _ _ => True
  | .closeReading _ _ _ => True
  | _ => False

/-- The process on the left of a pipe has not closed the reading end. -/
def Task.IsLeaving : Task σ → Prop
  | .leaveReading _ _ _ => True
  | _ => False

/-- The process waits for a side of its pipe. -/
def Task.IsWaiting : Task σ → Prop
  | .awaitLeft _ _ => True
  | .awaitRight _ => True
  | _ => False

theorem Side.stream_inj {d e : Side} {n k : Nat} (h : d.stream n = e.stream k) : d = e ∧ n = k := by
  cases d <;> cases e <;> simp_all [Side.stream]

theorem Side.not_isFile (d : Side) (n : Nat) : ¬(d.stream n).IsFile := by
  rintro ⟨f, hf⟩
  cases d <;> cases hf

/-! ## Who holds an end -/

namespace Orderly

/-- The streams of a process of a place : those the place may have, and for a while the ends
of the pipe that it makes, or the end that it is to leave to the other side. -/
theorem stream_cases (h : Orderly c D₀ L s) (hD₀ : ∀ n k, D₀.get? n = some k → k.stream.IsFile)
    {n : Nat} {k : Handle} (hq : L.place q = some b) (hw : s.work q = some (τ, D))
    (hn : D.get? n = some k) :
    L.Allows b k.stream ∨ (τ.IsPiping ∧ ∃ i d, L.pipe b = some i ∧ k.stream = Side.stream d i) ∨
      τ.IsLeaving ∧ ∃ a i, b = .left :: a ∧ L.pipe a = some i ∧ k.stream = .pipeReader i := by
  have hwiring : ∀ b n k, L.wiring c D₀.get? b n = some k → L.Allows b k.stream :=
    allows_wiring hD₀ h.opened
  -- the tables of the process that has the reading end left, and of that which has made both ends
  have left : ∀ {i r}, L.pipe b = some i →
      Function.update (L.wiring c D₀.get? b) r (some ⟨.pipeReader i, false⟩) n = some k →
        L.Allows b k.stream ∨ ∃ i d, L.pipe b = some i ∧ k.stream = Side.stream d i := by
    intro i r hi hk
    rcases Table.eq_or_of_update hk with rfl | hk
    · exact .inr ⟨i, .right, hi, rfl⟩
    · exact .inl (hwiring b n k hk)
  have made : ∀ {i r w}, L.pipe b = some i →
      Function.update (Function.update (L.wiring c D₀.get? b) r (some ⟨.pipeReader i, false⟩))
        w (some ⟨.pipeWriter i, false⟩) n = some k →
          L.Allows b k.stream ∨ ∃ i d, L.pipe b = some i ∧ k.stream = Side.stream d i := by
    intro i r w hi hk
    rcases Table.eq_or_of_update hk with rfl | hk
    · exact .inr ⟨i, .left, hi, rfl⟩
    · exact left hi hk
  have hs := h.arranged.stage q b τ D hq hw
  have hf := h.fit q b τ D hq hw
  cases hs with
  | run part rest opened childless table => exact .inl (hwiring b n k (table ▸ hn))
  | open_ part rest opened childless table => exact .inl (hwiring b n k (table ▸ hn))
  | install part rest opened length childless free table =>
    rcases Table.eq_or_of_update (table ▸ hn) with rfl | hn
    · refine .inl (.inl (h.opened b _ ?_))
      rw [opened]
      exact List.mem_append_right _ (List.mem_singleton_self _)
    · refine .inl (allows_redirected (fun o ho => h.opened b o ?_) (allows_entry hD₀ h.opened b) hn)
      rw [opened]
      exact List.mem_append_left _ ho
  | forkLeft splits childless freeReading freeWriting ne table =>
    exact (made splits.pipe (table ▸ hn)).imp_right fun hends => .inl ⟨trivial, hends⟩
  | closeWriting splits placed alone freeReading freeWriting ne table =>
    exact (made splits.pipe (table ▸ hn)).imp_right fun hends => .inl ⟨trivial, hends⟩
  | forkRight splits placed alone freeReading table =>
    exact (left splits.pipe (table ▸ hn)).imp_right fun hends => .inl ⟨trivial, hends⟩
  | closeReading splits placed placedRight freeReading table =>
    exact (left splits.pipe (table ▸ hn)).imp_right fun hends => .inl ⟨trivial, hends⟩
  | awaitLeft splits placed placedRight table => exact .inl (hwiring b n k (table ▸ hn))
  | awaitRight splits placedRight table => exact .inl (hwiring b n k (table ▸ hn))
  | leaveReading cons part opened childless pipe freeReading freeWriting ne table =>
    subst cons
    rcases Table.eq_or_of_update (table ▸ hn) with rfl | hn
    · exact .inl (.inr ⟨.left, _, _, List.suffix_refl _, pipe, rfl⟩)
    rcases Table.eq_or_of_update hn with rfl | hn
    · exact .inr (.inr ⟨trivial, _, _, rfl, pipe, rfl⟩)
    · exact .inl ((hwiring _ n k hn).of_suffix (List.suffix_cons _ _))
  | attach cons eq part opened childless pipe free table =>
    subst cons
    rcases Table.eq_or_of_update (table ▸ hn) with rfl | hn
    · exact .inl (.inr ⟨_, _, _, List.suffix_refl _, pipe, rfl⟩)
    · exact .inl ((hwiring _ n k hn).of_suffix (List.suffix_cons _ _))
  | complain => exact .inl (hf.2 n k hn)
  | program => exact .inl (hf.2 n k hn)
  | ended =>
    rw [hf.2.1] at hn
    cases hn
  | reaped =>
    rw [hf.1] at hn
    cases hn

/-- A process that has an end of a pipe has a place. -/
theorem place_of_holds (h : Orderly c D₀ L s) (hD₀ : ∀ n k, D₀.get? n = some k → k.stream.IsFile)
    {d : Side} {i : Nat} (hw : s.work q = some (τ, D)) (hold : D.holds (d.stream i) = true) :
    ∃ b, L.place q = some b := by
  obtain ⟨n, k, hn, hk⟩ := (D.holds_iff _).mp hold
  rcases hq : L.place q with _ | b
  · rcases eq_or_ne q shell with rfl | hne
    · obtain ⟨τ', hτ', -⟩ := h.arranged.atShell
      obtain ⟨-, rfl⟩ := work_inj hw hτ'
      exact absurd (hk ▸ hD₀ n k hn) (d.not_isFile i)
    · rw [(h.arranged.other q τ D hne hq hw).2 n] at hn
      cases hn
  · exact ⟨b, rfl⟩

/-- Once the process of a pipe has closed both ends, each end is held on its own side alone,
and the reading end by the process right on the left until that has closed it. -/
theorem side_of_holds (h : Orderly c D₀ L s) (hD₀ : ∀ n k, D₀.get? n = some k → k.stream.IsFile)
    {r : Pid} {τ' : Task σ} {D' : Descriptors} {d : Side} {i : Nat} (hq : L.place q = some a)
    (hw : s.work q = some (τ, D)) (hpiping : ¬τ.IsPiping) (hi : L.pipe a = some i)
    (hr : s.work r = some (τ', D')) (hold : D'.holds (d.stream i) = true) :
    ∃ b, L.place r = some b ∧ (d :: a <:+ b ∨ d = .right ∧ b = .left :: a ∧ τ'.IsLeaving) := by
  obtain ⟨b, hb⟩ := h.place_of_holds hD₀ hr hold
  obtain ⟨n, k, hn, hk⟩ := (D'.holds_iff _).mp hold
  refine ⟨b, hb, ?_⟩
  rcases h.stream_cases hD₀ hb hr hn with
    hallows | ⟨hmade, j, e, hj, hke⟩ | ⟨hleaving, a', j, rfl, hj, hkr⟩
  · rcases hallows with hfile | ⟨e, a', j, hs, hj, hke⟩
    · exact absurd (hk ▸ hfile) (d.not_isFile i)
    · obtain ⟨rfl, rfl⟩ := Side.stream_inj (hk.symm.trans hke)
      obtain rfl := h.piped.inj a a' _ hi hj
      exact .inl hs
  · obtain ⟨-, rfl⟩ := Side.stream_inj (hk.symm.trans hke)
    obtain rfl := h.piped.inj a b _ hi hj
    obtain rfl := h.arranged.inj q r a hq hb
    obtain ⟨rfl, -⟩ := work_inj hw hr
    exact absurd hmade hpiping
  · have hright : k.stream = Side.right.stream j := hkr
    obtain ⟨rfl, rfl⟩ := Side.stream_inj (hk.symm.trans hright)
    obtain rfl := h.piped.inj a a' _ hi hj
    exact .inr ⟨rfl, rfl, hleaving⟩

/-- All that is below a process that has ended has ended. -/
theorem over_of_suffix (h : Orderly c D₀ L s) {r : Pid} (hq : L.place q = some a) (ho : s.Over q)
    (hr : L.place r = some b) (hs : a <:+ b) : s.Over r := by
  induction b generalizing r with
  | nil =>
    obtain rfl := List.suffix_nil.mp hs
    exact h.arranged.inj q r _ hq hr ▸ ho
  | cons d b ih =>
    rcases List.suffix_cons_iff.mp hs with rfl | hs
    · exact h.arranged.inj q r _ hq hr ▸ ho
    · obtain ⟨p, hp⟩ := h.arranged.parent r d b hr
      obtain ⟨τ, D, hw, e, rfl | rfl⟩ := ih hp hs
      · exact (h.fit p b _ _ hp hw).2.2 r d hr
      · exact (h.fit p b _ _ hp hw).2 r d hr

/-- A process that has ended has no descriptors. -/
theorem not_over_of_holds (h : Orderly c D₀ L s) {o : Stream} (hq : L.place q = some a)
    (hw : s.work q = some (τ, D)) (hold : D.holds o = true) : ¬s.Over q := by
  rintro ⟨τ', D', hw', e, he⟩
  obtain ⟨rfl, rfl⟩ := work_inj hw hw'
  obtain ⟨n, k, hn, -⟩ := (D.holds_iff _).mp hold
  rcases he with rfl | rfl
  · rw [(h.fit q a _ _ hq hw).2.1 n] at hn
    cases hn
  · rw [(h.fit q a _ _ hq hw).1 n] at hn
    cases hn

end Orderly

/-! ## Why a process takes no step -/

namespace System

/-- At its end of pipe `n` a side has to wait : the left side for room, and the right side for
bytes, while some process has the other end. -/
def Stuck (s : System σ) (n : Nat) : Side → Prop
  | .left => s.capacity ≤ (s.pipe n).length ∧ s.held (.pipeReader n) = true
  | .right => s.pipe n = [] ∧ s.held (.pipeWriter n) = true

/-- A process with descriptors `D` waits : for another to end, or at its end of a pipe. -/
inductive Waits (s : System σ) (D : Descriptors) : Task σ → Prop
  | line {q : Pid} (going : ∀ e D', s.work q ≠ some (.ended e, D')) : Waits s D (.awaitLine q)
  | left {q r : Pid} (going : ∀ e D', s.work q ≠ some (.ended e, D')) : Waits s D (.awaitLeft q r)
  | right {q : Pid} (going : ∀ e D', s.work q ≠ some (.ended e, D')) : Waits s D (.awaitRight q)
  | program {state : σ} {d : Side} {n i : Nat} {k : Handle} (get : D.get? n = some k)
      (stream : k.stream = d.stream i) (stuck : s.Stuck i d) : Waits s D (.program state)
  | complain {pieces : List Bytes} {code : Nat} {d : Side} {n i : Nat} {k : Handle}
      (get : D.get? n = some k) (stream : k.stream = d.stream i) (stuck : s.Stuck i d) :
      Waits s D (.complain pieces code)

theorem held_iff {o : Stream} :
    s.held o = true ↔ ∃ q τ D, s.work q = some (τ, D) ∧ D.holds o = true := by
  rw [held, Array.any_eq_true]
  constructor
  · rintro ⟨q, hq, hold⟩
    exact ⟨q, _, _, work_of_getElem? (Array.getElem?_eq_getElem hq), hold⟩
  · rintro ⟨q, τ, D, hw, hold⟩
    obtain ⟨p, hp, -, rfl⟩ := work_eq_some_iff.mp hw
    obtain ⟨hq, rfl⟩ := Array.getElem?_eq_some_iff.mp hp
    exact ⟨q, hq, hold⟩

/-- A read waits for bytes alone. -/
theorem readFrom_wait {o : Stream} {count : Nat} (h : s.readFrom o count = .wait) :
    ∃ i, o = Side.right.stream i ∧ s.Stuck i .right := by
  unfold readFrom at h
  split at h
  · repeat' split at h
    all_goals cases h
  · rename_i i
    split at h
    · rename_i hempty
      split at h
      · rename_i hheld
        rw [Bool.and_eq_true, List.isEmpty_iff] at hempty
        exact ⟨i, rfl, hempty.1, hheld⟩
      · cases h
    · cases h
  · cases h

theorem readFrom_ne_broken {o : Stream} {count : Nat} : s.readFrom o count ≠ .broken := by
  intro h
  unfold readFrom at h
  repeat' split at h
  all_goals cases h

/-- A write waits for room alone. -/
theorem writeTo_wait {o : Stream} {data : Bytes} (h : s.writeTo o data = .wait) :
    ∃ i, o = Side.left.stream i ∧ s.Stuck i .left := by
  simp only [writeTo] at h
  split at h
  · repeat' split at h
    all_goals cases h
  · rename_i i
    split at h
    · cases h
    split at h
    · cases h
    rename_i hheld
    split at h
    · rename_i hroom
      refine ⟨i, rfl, Nat.sub_eq_zero_iff_le.mp hroom, ?_⟩
      simpa using hheld
    · cases h
  · cases h

/-- A process that waits for another goes on once that has ended. -/
theorem going_of_awaitStep? {p : Process σ} {next : Except Errno Nat → Task σ}
    (h : s.awaitStep? pid p q next = none) (e : Ending) (D' : Descriptors) :
    s.work q ≠ some (.ended e, D') := by
  intro hw
  obtain ⟨r, hr, ht, -⟩ := work_eq_some_iff.mp hw
  rw [awaitStep?, task?, hr, Option.map_some, ht] at h
  cases h

theorem waits_of_complainStep? {p : Process σ} {pieces : List Bytes} {code : Nat}
    (h : s.complainStep? pid p code pieces = none) :
    Waits s p.descriptors (.complain pieces code) := by
  cases pieces with
  | nil => cases h
  | cons piece pieces =>
    rw [complainStep?] at h
    split at h
    · rename_i hwait
      unfold tell at hwait
      split at hwait
      · cases hwait
      · rename_i k hk
        obtain ⟨i, hi, hstuck⟩ := writeTo_wait hwait
        exact .complain hk hi hstuck
    all_goals cases h

theorem waits_of_programStep? {p : Process σ} {state : σ}
    (h : s.programStep? m pid p state = none) : Waits s p.descriptors (.program state) := by
  unfold programStep? at h
  split at h
  case h_2 =>
    split at h
    · cases h
    rename_i k hk
    split at h
    · cases h
    · rename_i hwait
      obtain ⟨i, hi, hstuck⟩ := readFrom_wait hwait
      exact .program hk hi hstuck
    · rename_i hbroken
      exact absurd hbroken readFrom_ne_broken
  case h_3 =>
    split at h
    · cases h
    rename_i k hk
    split at h
    · cases h
    · rename_i hwait
      obtain ⟨i, hi, hstuck⟩ := writeTo_wait hwait
      exact .program hk hi hstuck
    · split at h <;> cases h
  all_goals repeat' split at h
  all_goals cases h

/-- A process that takes no step has ended, or has executed the line, or waits. -/
theorem waits_of_step?_eq_none (hw : s.work q = some (τ, D)) (h : s.step? m q = none) :
    τ.IsOver ∨ (∃ r, τ = .executed r) ∨ Waits s D τ := by
  obtain ⟨p, hp, rfl, rfl⟩ := work_eq_some_iff.mp hw
  cases hτ : p.task with
  | awaitLine r =>
    simp only [step?, hp, hτ] at h
    exact .inr (.inr (.line (going_of_awaitStep? h)))
  | awaitLeft l r =>
    simp only [step?, hp, hτ] at h
    exact .inr (.inr (.left (going_of_awaitStep? h)))
  | awaitRight r =>
    simp only [step?, hp, hτ] at h
    refine .inr (.inr (.right fun e D' hr => ?_))
    obtain ⟨p', hp', ht, -⟩ := work_eq_some_iff.mp hr
    rw [task?, hp', Option.map_some, ht] at h
    cases he : e.status? <;> simp [he] at h
  | complain pieces code =>
    simp only [step?, hp, hτ] at h
    exact .inr (.inr (waits_of_complainStep? h))
  | program state =>
    simp only [step?, hp, hτ] at h
    exact .inr (.inr (waits_of_programStep? h))
  | executed r => exact .inr (.inl ⟨r, rfl⟩)
  | ended e => exact .inl ⟨e, .inl rfl⟩
  | reaped e => exact .inl ⟨e, .inr rfl⟩
  | execute c =>
    simp only [step?, hp, hτ] at h
    split at h <;> cases h
  | open_ rs inner => cases rs <;> simp [step?, hp, hτ] at h
  | _ => simp [step?, hp, hτ] at h

end System

/-! ## Nobody waits for ever -/

/-- A process at a place waits, or what it waits for waits, at a pipe above the place. -/
def Layout.Blocked (L : Layout) (s : System σ) (a : Address) : Prop :=
  ∃ d b n, d :: b <:+ a ∧ L.pipe b = some n ∧ s.Stuck n d

/-- The pipes in the command at a place. -/
def Command.pipesAt (c : Command) (a : Address) : Nat :=
  ((c.part? a).map pipeCount).getD 0

theorem Splits.pipesAt_lt {left right : Command} {n : Nat} (h : Splits c L a left right n)
    (d : Side) : c.pipesAt (d :: a) < c.pipesAt a := by
  obtain ⟨k, hk, hpipe, -⟩ := h.part
  rw [Command.pipesAt, Command.pipesAt, Command.part?_cons hk hpipe, hk]
  exact Command.pipeCount_command_lt hpipe d

/-- A pipe with room for a byte is not full and empty at once. -/
theorem System.Stuck.ne {n : Nat} (hcapacity : 1 ≤ s.capacity) (hl : s.Stuck n .left) :
    ¬s.Stuck n .right := by
  intro hr
  have hfull := hl.1
  rw [hr.1, List.length_nil] at hfull
  omega

theorem System.not_over_of_going {r : Pid} (going : ∀ e D', s.work r ≠ some (.ended e, D'))
    (hn : ¬s.Reaped r) : ¬s.Over r := by
  rintro ⟨τ, D, hw, e, rfl | rfl⟩
  · exact going e D hw
  · exact hn ⟨e, D, hw⟩

/-- What blocks a place blocks the place above it, unless it is the pipe between them. -/
theorem Layout.Blocked.of_cons {d : Side} (h : L.Blocked s (d :: a)) :
    L.Blocked s a ∨ ∃ n, L.pipe a = some n ∧ s.Stuck n d := by
  obtain ⟨e, b, n, hs, hn, hstuck⟩ := h
  rcases List.suffix_cons_iff.mp hs with heq | hs
  · obtain ⟨rfl, rfl⟩ := List.cons.inj heq
    exact .inr ⟨n, hn, hstuck⟩
  · exact .inl ⟨e, b, n, hs, hn, hstuck⟩

namespace Orderly

/-- A process that waits at an end that its place may have is blocked. -/
theorem blocked_of_stuck {k : Handle} {d : Side} {i : Nat} (ha : L.Allows a k.stream)
    (hk : k.stream = d.stream i) (hstuck : s.Stuck i d) : L.Blocked s a := by
  rcases ha with hfile | ⟨e, b, n, hs, hn, heq⟩
  · exact absurd (hk ▸ hfile) (d.not_isFile i)
  · obtain ⟨rfl, rfl⟩ := Side.stream_inj (hk.symm.trans heq)
    exact ⟨d, b, i, hs, hn, hstuck⟩

/-- Where nobody takes a step, every process of a place that has not ended is blocked. -/
theorem blocked (h : Orderly c D₀ L s) (hD₀ : ∀ n k, D₀.get? n = some k → k.stream.IsFile)
    (hcapacity : 1 ≤ s.capacity) (hstop : ∀ pid, s.step? m pid = none)
    (hq : L.place q = some a) (hlive : ¬s.Over q) : L.Blocked s a := by
  -- the sides of a pipe have fewer pipes than the pipe
  induction hN : c.pipesAt a using Nat.strongRecOn generalizing q a with
  | _ N ih =>
  subst hN
  have hlt := (h.arranged.placed q a hq).2
  have hw := work_of_getElem? (Array.getElem?_eq_getElem hlt)
  generalize s.processes[q].task = τ at hw
  generalize s.processes[q].descriptors = D at hw
  have hs := h.arranged.stage q a τ D hq hw
  have hf := h.fit q a τ D hq hw
  rcases waits_of_step?_eq_none hw (hstop q) with hover | ⟨r, rfl⟩ | hwaits
  · exact absurd ⟨τ, D, hw, hover⟩ hlive
  · cases hs
  cases hwaits with
  | line going => cases hs
  | program get stream stuck => exact blocked_of_stuck (hf.2 _ _ get) stream stuck
  | complain get stream stuck => exact blocked_of_stuck (hf.2 _ _ get) stream stuck
  | left going =>
    cases hs with
    | awaitLeft splits placed placedRight table =>
      have hleft := ih _ (splits.pipesAt_lt .left) placed (not_over_of_going going hf.1) rfl
      rcases hleft.of_cons with hblocked | ⟨n, hn, hfull⟩
      · exact hblocked
      -- the left side waits for room in the pipe, so somebody can read from it
      obtain ⟨r, τ', D', hr, hold⟩ := held_iff.mp hfull.2
      obtain ⟨b, hb, hs | ⟨-, rfl, hleaving⟩⟩ :=
        h.side_of_holds hD₀ (d := .right) hq hw id hn hr hold
      · have hright := ih _ (splits.pipesAt_lt .right) placedRight
          (fun ho => h.not_over_of_holds hb hr hold (h.over_of_suffix placedRight ho hb hs)) rfl
        rcases hright.of_cons with hblocked | ⟨n', hn', hempty⟩
        · exact hblocked
        · obtain rfl := Option.some.inj (hn.symm.trans hn')
          exact absurd hempty (hfull.ne hcapacity)
      · rcases waits_of_step?_eq_none hr (hstop r) with ⟨e, rfl | rfl⟩ | ⟨e, rfl⟩ | hwaits
        · exact hleaving.elim
        · exact hleaving.elim
        · exact hleaving.elim
        · cases hwaits <;> exact hleaving.elim
  | right going =>
    cases hs with
    | awaitRight splits placedRight table =>
      have hright := ih _ (splits.pipesAt_lt .right) placedRight (not_over_of_going going hf.1) rfl
      rcases hright.of_cons with hblocked | ⟨n, hn, hempty⟩
      · exact hblocked
      -- the right side waits for bytes in the pipe, but all on the left side have ended
      obtain ⟨r, τ', D', hr, hold⟩ := held_iff.mp hempty.2
      obtain ⟨b, hb, hs | ⟨⟨⟩, -, -⟩⟩ := h.side_of_holds hD₀ (d := .left) hq hw id hn hr hold
      obtain ⟨l, hl⟩ := h.arranged.exists_place_of_suffix hb hs
      exact absurd (h.over_of_suffix hl (hf.2 l hl) hb hs) (h.not_over_of_holds hb hr hold)

end Orderly

/-! ## A line -/

namespace System

theorem files_setShellTask (s : System σ) (τ : Task σ) : (s.setShellTask τ).files = s.files := by
  unfold setShellTask
  split <;> rfl

theorem capacity_setShellTask (s : System σ) (τ : Task σ) :
    (s.setShellTask τ).capacity = s.capacity := by
  unfold setShellTask
  split <;> rfl

theorem capacity_of_traced (ht : Traced m s t L) : t.capacity = s.capacity := by
  induction ht with
  | start => rfl
  | step _ hstep ih => rw [(kept_of_step? hstep).capacity, ih]

theorem orderly_start (h : s.Idle D₀) (hplain : s.files.Plain) (c : Command) :
    Orderly c D₀ {} (s.setShellTask (.execute c)) where
  arranged := arranged_start h c
  piped := piped_empty _
  plain := by rwa [files_setShellTask]
  opened := by rintro a o ⟨⟩
  fit := by rintro q a τ D ⟨⟩
  line := by
    intro line D hw
    rw [work_setShellTask h, Function.update_self] at hw
    cases hw

theorem orderly_of_traced (h : s.Idle D₀) (hD₀ : ∀ n k, D₀.get? n = some k → k.stream.IsFile)
    (hplain : s.files.Plain) (hm : m.Ordinary)
    (ht : Traced m (s.setShellTask (.execute c)) t L) : Orderly c D₀ L t := by
  induction ht with
  | start => exact orderly_start h hplain c
  | step _ hstep ih => exact ih.step hD₀ hm hstep

/-- As long as the process of the line has not ended, some process takes a step. -/
theorem exists_step_of_not_over (h : Orderly c D₀ L s)
    (hD₀ : ∀ n k, D₀.get? n = some k → k.stream.IsFile) (hcapacity : 1 ≤ s.capacity)
    (hq : L.place q = some []) (hlive : ¬s.Over q) : ∃ t, Step m s t := by
  by_contra hnone
  have hstop : ∀ pid, s.step? m pid = none := by
    intro pid
    rw [Option.eq_none_iff_forall_ne_some]
    intro t ht
    exact hnone ⟨t, pid, ht⟩
  -- no pipe is above the root
  obtain ⟨d, b, n, hs, -, -⟩ := h.blocked hD₀ hcapacity hstop hq hlive
  cases List.suffix_nil.mp hs

/-- As long as the line has not been executed, some process takes a step. -/
theorem exists_step_of_result?_eq_none (h : Orderly c D₀ L s)
    (hD₀ : ∀ n k, D₀.get? n = some k → k.stream.IsFile) (hcapacity : 1 ≤ s.capacity)
    (hresult : s.result? = none) : ∃ t, Step m s t := by
  obtain ⟨τ, hw, hs⟩ := h.arranged.atShell
  rcases hstep : s.step? m shell with _ | t
  · obtain ⟨p, hp, rfl, rfl⟩ := work_eq_some_iff.mp hw
    rcases waits_of_step?_eq_none hw hstep with ⟨e, he | he⟩ | ⟨r, hr⟩ | hwaits
    · rw [he] at hs
      cases hs
    · rw [he] at hs
      cases hs
    · rw [result?, task?, hp, Option.map_some, hr] at hresult
      cases hresult
    · generalize hτ : p.task = τ at hs hwaits
      cases hs with
      | begins none => cases hwaits
      | done r => cases hwaits
      | waits placed =>
        cases hwaits with
        | line going =>
          rw [hτ] at hw
          exact exists_step_of_not_over h hD₀ hcapacity placed
            (not_over_of_going going (h.line _ _ hw))
  · exact ⟨t, shell, hstep⟩

/-- In every state to which steps lead from that in which a line begins, with files alone for
descriptors of the shell, a plain tree, room in the pipes, and ordinary programs :
who waits for a side of a pipe is the process of a pipe of the command tree ; once the process
of a pipe has closed both ends, the writing end is held on the left side alone, and the
reading end on the right side alone and by the process right on the left until that has closed
it ; and some process takes a step as long as the process of the line has not ended, and as
long as the shell has not executed the line. -/
theorem no_deadlock (hs : s.Idle D₀) (hD₀ : ∀ n k, D₀.get? n = some k → k.stream.IsFile)
    (hplain : s.files.Plain) (hcapacity : 1 ≤ s.capacity) (hm : m.Ordinary)
    (ht : Reachable m (s.setShellTask (.execute c)) t) :
    ∃ L, Traced m (s.setShellTask (.execute c)) t L ∧
      (∀ pid τ D, t.work pid = some (τ, D) → τ.IsWaiting →
        ∃ a left right n, L.place pid = some a ∧ Splits c L a left right n) ∧
      (∀ pid a τ D n, L.place pid = some a → t.work pid = some (τ, D) → ¬τ.IsPiping →
        L.pipe a = some n → ∀ d r τ' D', t.work r = some (τ', D') →
          D'.holds (Side.stream d n) = true → ∃ b, L.place r = some b ∧
            (d :: a <:+ b ∨ d = .right ∧ b = .left :: a ∧ τ'.IsLeaving)) ∧
      (∀ line, L.place line = some [] → ¬t.Over line → ∃ u, Step m t u) ∧
      (t.result? = none → ∃ u, Step m t u) := by
  obtain ⟨L, hL⟩ := exists_traced ht
  have h : Orderly c D₀ L t := orderly_of_traced hs hD₀ hplain hm hL
  have hroom : 1 ≤ t.capacity := by
    rwa [capacity_of_traced hL, capacity_setShellTask]
  refine ⟨L, hL, ?_, ?_, ?_, ?_⟩
  · intro pid τ D hw hwait
    have hover : ¬τ.IsOver := by
      rintro ⟨e, rfl | rfl⟩ <;> exact hwait
    have hshell : ¬ShellStage c L τ := by
      rintro (_ | _ | _) <;> exact hwait
    obtain ⟨a, ha, hstage⟩ := h.arranged.exists_stage hw hover hshell
    cases hstage with
    | awaitLeft splits placed placedRight table => exact ⟨a, _, _, _, ha, splits⟩
    | awaitRight splits placedRight table => exact ⟨a, _, _, _, ha, splits⟩
    | _ => exact hwait.elim
  · intro pid a τ D n ha hw hpiping hn d r τ' D' hr hold
    exact h.side_of_holds hD₀ ha hw hpiping hn hr hold
  · intro line hline hlive
    exact exists_step_of_not_over h hD₀ hroom hline hlive
  · exact exists_step_of_result?_eq_none h hD₀ hroom

theorem ordinary_brief : brief.Ordinary where
  told := by rintro state signal ⟨⟩
  plain := by rintro state change next ⟨⟩

theorem plain_bare : bare.files.Plain := by
  have hroot : Files.root.Plain := by
    rintro (_ | id) p hnode
    · cases hnode
    · cases hnode
  exact ((hroot.addNode (by rintro _ ⟨⟩)).addNode (by rintro _ ⟨⟩)).addNode (by rintro _ ⟨⟩)

/-- Both sides of the pipe are there and have done nothing yet, and the process of the pipe waits
for the left one. -/
theorem no_deadlock_bare : ∃ (t u : System Unit) (L : Layout) (a : Address) (n : Nat),
    Reachable brief (bare.setShellTask (.execute couple)) t ∧
    t.work 1 = some (.awaitLeft 2 3, ⟨[none, none, some ⟨.file 2, false⟩]⟩) ∧
    L.place 1 = some a ∧ L.pipe a = some n ∧
      (∀ r τ D, t.work r = some (τ, D) → D.holds (.pipeWriter n) = true →
        ∃ b, L.place r = some b ∧ .left :: a <:+ b) ∧ Step brief t u := by
  obtain ⟨t, ht, hw, hresult⟩ : ∃ t,
      steps brief [0, 1, 1, 1, 1, 1] (bare.setShellTask (.execute couple)) = some t ∧
      t.work 1 = some (.awaitLeft 2 3, ⟨[none, none, some ⟨.file 2, false⟩]⟩) ∧
      t.result? = none := ⟨_, rfl, rfl, rfl⟩
  have hfiles : ∀ n k, Descriptors.get? ⟨[none, none, some ⟨.file 2, false⟩]⟩ n = some k →
      k.stream.IsFile := by
    rintro (_ | _ | _ | n) k hk <;> cases hk
    exact ⟨2, rfl⟩
  obtain ⟨L, -, hnode, hheld, -, hstep⟩ := no_deadlock idle_bare hfiles plain_bare (by decide)
    ordinary_brief (reachable_of_steps ht)
  obtain ⟨a, left, right, n, ha, hsplits⟩ := hnode 1 _ _ hw trivial
  obtain ⟨u, hu⟩ := hstep hresult
  refine ⟨t, u, L, a, n, reachable_of_steps ht, hw, ha, hsplits.pipe, ?_, hu⟩
  intro r τ D hr hold
  obtain ⟨b, hb, hs | ⟨⟨⟩, -, -⟩⟩ := hheld 1 a _ _ n ha hw id hsplits.pipe .left r τ D hr hold
  exact ⟨b, hb, hs⟩

end System

end LineShell
