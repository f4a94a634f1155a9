import LineShell.Proofs.Orderly
import LineShell.Proofs.Story

/-!
# What the journal tells

`Chronicle` : what every process has done is the story of its place and its task. The processes
with a place are those that were made for the line, each of them by the process right above it
(`Layout.Above`), and a process was waited for exactly if the one above it has noted that.

No step breaks this (`Chronicle.step`), whatever the tree, the programs, and the descriptors of
the shell.
-/

namespace LineShell

open LineShell.System LineShell.Layout

variable {σ : Type} {c : Command} {D₀ D D' : Descriptors} {L L' : Layout} {J : Journal}
  {a b : Address} {τ τ' : Task σ} {s t : System σ} {m : Machine σ} {pid q : Pid} {p : Process σ}
  {e : Ending} {n : Nat}

/-- Process `p` is right above place `b` : it has the place above, or it is the shell and `b` is
the place of the whole tree. -/
def Layout.Above (L : Layout) (p : Pid) (b : Address) : Prop :=
  (p = shell ∧ b = []) ∨ ∃ d a, L.place p = some a ∧ b = d :: a

/-- Every process has done what its place and its task say. The processes from number `n` on were
made for the line. -/
structure Chronicle (m : Machine σ) (c : Command) (D₀ : Descriptors) (n : Nat) (L : Layout)
    (J : Journal) (s : System σ) : Prop where
  arranged : Arranged c D₀ L s
  limit : ∀ a i, L.pipe a = some i → 2 ≤ s.descriptorLimit
  atShell : ∃ τ, s.work shell = some (τ, D₀) ∧ ShellStory c L τ (J.of shell)
  story : ∀ q a τ D, L.place q = some a → s.work q = some (τ, D) → Story c L a m τ (J.of q)
  silent : ∀ q, q ≠ shell → L.place q = none → J.of q = []
  size : n ≤ s.processes.size
  placed : ∀ q, n ≤ q → q < s.processes.size → ∃ a, L.place q = some a
  first : ∀ q a, L.place q = some a → n ≤ q
  forked : ∀ q b, L.place q = some b → ∃ p, L.Above p b ∧ .forks q ∈ J.of p
  reaped : ∀ q b e D, L.place q = some b → s.work q = some (.reaped e, D) →
    ∃ p, L.Above p b ∧ .reaps q e ∈ J.of p
  reaps : ∀ p q e, .reaps q e ∈ J.of p → ∃ D, s.work q = some (.reaped e, D)

/-! ## Who waits for whom -/

/-- The process that a process with the task waits for. -/
def Task.awaits : Task σ → Option Pid
  | .awaitLine line => some line
  | .awaitLeft left _ => some left
  | .awaitRight right => some right
  | _ => none

namespace System

theorem Resumes.awaits (h : Resumes D q e τ τ' D') : τ.awaits = some q := by
  cases h <;> rfl

theorem Forks.awaits {next : Pid → Task σ} (h : Forks τ τ' next) : τ.awaits = none := by
  cases h <;> rfl

theorem Turn.awaits (h : Turn m s p τ D) : p.task.awaits = none := by
  cases h with
  | _ task => rw [task]; rfl

theorem reaps_mem_reaping {r : Pid} (h : .reaps q e ∈ s.reaping r) :
    q = r ∧ s.task? r = some (.ended e) := by
  unfold reaping at h
  split at h
  · rename_i he
    obtain ⟨rfl, rfl⟩ := Deed.reaps.inj (List.mem_singleton.mp h)
    exact ⟨rfl, he⟩
  · cases h

theorem reaps_not_mem_loading {program : Bytes} {arguments : List Bytes}
    {named : Option (List Bytes)} : .reaps q e ∉ s.loading m p program arguments named τ :=
  fun h => Bool.false_ne_true (isLoading_of_mem_loading h)

theorem reaps_not_mem_telling {pieces : List Bytes} : .reaps q e ∉ s.telling p pieces := by
  unfold telling
  repeat' split
  all_goals simp

/-- Only a process that waits for another comes to have waited for it. -/
theorem awaits_of_mem_deeds {named : Option (List Bytes)} (h : .reaps q e ∈ s.deeds m p named τ) :
    p.task.awaits = some q ∧ s.task? q = some (.ended e) := by
  have hawait : ∀ r, .reaps q e ∈ s.reaping r → some r = some q ∧ s.task? q = some (.ended e) := by
    intro r hr
    obtain ⟨rfl, hq⟩ := reaps_mem_reaping hr
    exact ⟨rfl, hq⟩
  unfold deeds at h
  split at h
  case h_4 child htask | h_5 child _ htask | h_6 child htask =>
    rw [htask]
    exact hawait child h
  case h_7 => exact absurd h reaps_not_mem_loading
  case h_11 => exact absurd h reaps_not_mem_telling
  all_goals
    repeat' split at h
    all_goals simp at h

end System

/-! ## One step -/

namespace Chronicle

/-- Every process is in the place it had before. -/
theorem place_after (h : Chronicle m c D₀ n L J s) (hstep : s.step? m pid = some t) (q : Pid)
    (b : Address) (hq : L.place q = some b) : (L.after t pid).place q = some b :=
  h.arranged.place_of_grows (h.arranged.grows hstep).1 hq

/-- An end of a pipe can be put in the place of descriptor 0 or 1. -/
theorem attaches (h : Chronicle m c D₀ n L J s) (hp : s.processes[pid]? = some p)
    (hpid : L.place pid = some a) {handle target : Nat} {k : Command} {err : Errno}
    (ht : p.task = .attach handle target k) :
    p.descriptors.install s.descriptorLimit handle target ≠ .error err := by
  have hw := work_of_getElem? hp
  rw [ht] at hw
  cases h.arranged.stage pid a _ _ hpid hw with
  | @attach _ d b i _ _ cons eq part opened childless pipe free table =>
    have hlimit := h.limit b _ pipe
    have hget : p.descriptors.get? handle = some ⟨d.stream i, false⟩ := by
      rw [table, Function.update_self]
    have htarget : target < 2 := by
      rw [eq]
      cases d <;> decide
    rw [Descriptors.install, hget]
    dsimp only
    split
    · simp
    rw [if_pos ⟨Int.natCast_nonneg _, by omega⟩]
    simp

/-- The process of a step goes on with its story. -/
theorem story_self (h : Chronicle m c D₀ n L J s) (hstep : s.step? m pid = some t)
    (hpid : L.place pid = some a) (hw : t.work pid = some (τ, D)) :
    Story c (L.after t pid) a m τ (J.of pid ++ happens m s t pid) := by
  obtain ⟨p, hp, hm⟩ := move_of_step? hstep
  have hs := h.story pid a _ _ hpid (work_of_getElem? hp)
  have hmono := h.place_after hstep
  rw [happens_eq hp hw]
  cases hm with
  | turn τ' D' ht kept work size made =>
    obtain ⟨rfl, rfl⟩ := work_inj (work_of_update work) hw
    refine (hs.turn ht (fun _ _ _ _ task => h.attaches hp hpid task) ?_).mono hmono
    rintro program arguments state task rfl
    exact arguments?_of_loads hstep hp task hw
  | fork child next hf kept work size =>
    obtain ⟨rfl, rfl⟩ := work_inj (work_of_update work) hw
    rw [after_eq hw hpid]
    generalize htask : p.task = τ₀ at hf hs
    cases hf with
    | line k busy => cases hs
    | left reading writing l r =>
      simp only [deeds, htask]
      exact (hs.forkLeft_enter _).1
    | right reading l r =>
      simp only [deeds, htask]
      exact (hs.forkRight_enter h.arranged.new_not_placed).1
  | resume child e D' D'' τ' ended hr kept work size =>
    obtain ⟨rfl, rfl⟩ := work_inj (work_of_update work) hw
    have hdeeds : s.deeds m p (t.arguments? pid) τ' = s.reaping child := by
      generalize htask : p.task = τ₀ at hr
      cases hr <;> simp only [deeds, htask]
    rw [hdeeds]
    exact (hs.resumes hr ended).mono hmono

/-- What the step has made begins its story. -/
theorem story_new (h : Chronicle m c D₀ n L J s) (hstep : s.step? m pid = some t)
    (hb : (L.after t pid).place s.processes.size = some b)
    (hw : t.work s.processes.size = some (τ, D)) :
    Story c (L.after t pid) b m τ [] ∧ (L.after t pid).Above pid b ∧
      happens m s t pid = [.forks s.processes.size] := by
  obtain ⟨p, hp, hm⟩ := move_of_step? hstep
  have hnone : s.work s.processes.size = none := work_eq_none (Nat.le_refl _)
  have hne : s.processes.size ≠ pid := Nat.ne_of_gt (lt_of_getElem? hp)
  cases hm with
  | turn τ' D' ht kept work size made =>
    rw [work, Function.update_of_ne hne, hnone] at hw
    cases hw
  | resume child e D' D'' τ' ended hr kept work size =>
    have hchild : s.processes.size ≠ child := Nat.ne_of_gt (lt_of_work_eq_some ended)
    rw [work, Function.update_of_ne hne, Function.update_of_ne hchild, hnone] at hw
    cases hw
  | fork child next hf kept work size =>
    have hself := work_of_update work
    rw [happens_eq hp hself]
    rw [work, Function.update_of_ne hne, Function.update_self] at hw
    obtain ⟨rfl, -⟩ := Prod.mk.inj (Option.some.inj hw)
    have hpw := work_of_getElem? hp
    generalize htask : p.task = τ₀ at hf hpw
    cases hf with
    | line k busy =>
      obtain rfl : pid = shell := by
        by_contra hshell
        rcases hpid : L.place pid with _ | a
        · obtain ⟨⟨e, he | he⟩, -⟩ := h.arranged.other pid _ _ hshell hpid hpw <;> cases he
        · cases h.arranged.stage pid a _ _ hpid hpw
      obtain rfl : k = c := by
        cases h.arranged.shellStage hpw
        rfl
      have hafter : L.after t shell = L.enter s.processes.size [] := by
        rw [after_of_work hself]
        rfl
      rw [hafter] at hb ⊢
      obtain rfl : b = [] := Option.some.inj (hb.symm.trans (Function.update_self _ _ _))
      refine ⟨.begins rfl, .inl ⟨rfl, rfl⟩, ?_⟩
      simp [deeds, htask, busy]
    | left reading writing l r =>
      obtain ⟨a, hpid, -⟩ :=
        h.arranged.exists_stage hpw (by rintro ⟨e, h | h⟩ <;> cases h) (by rintro ⟨⟩)
      have hs := h.story pid a _ _ hpid hpw
      have hmono := h.place_after hstep pid a hpid
      rw [after_eq hself hpid] at hb hmono ⊢
      obtain rfl : b = .left :: a := Option.some.inj (hb.symm.trans (Function.update_self _ _ _))
      refine ⟨(hs.forkLeft_enter _).2, .inr ⟨_, a, hmono, rfl⟩, ?_⟩
      simp only [deeds, htask]
    | right reading l r =>
      obtain ⟨a, hpid, -⟩ :=
        h.arranged.exists_stage hpw (by rintro ⟨e, h | h⟩ <;> cases h) (by rintro ⟨⟩)
      have hs := h.story pid a _ _ hpid hpw
      have hmono := h.place_after hstep pid a hpid
      rw [after_eq hself hpid] at hb hmono ⊢
      obtain rfl : b = .right :: a := Option.some.inj (hb.symm.trans (Function.update_self _ _ _))
      refine ⟨(hs.forkRight_enter h.arranged.new_not_placed).2, .inr ⟨_, a, hmono, rfl⟩, ?_⟩
      simp only [deeds, htask]

/-- The shell goes on with its story. -/
theorem story_shell (h : Chronicle m c D₀ n L J s) (hstep : s.step? m shell = some t)
    (hw : t.work shell = some (τ, D)) :
    ShellStory c (L.after t shell) τ (J.of shell ++ happens m s t shell) := by
  obtain ⟨p, hp, hm⟩ := move_of_step? hstep
  have hmono := h.place_after hstep
  rw [happens_eq hp hw]
  obtain ⟨τ₀, hτ₀, hs⟩ := h.atShell
  obtain ⟨htask, -⟩ := work_inj (work_of_getElem? hp) hτ₀
  cases hm with
  | turn τ' D' ht kept work size made =>
    obtain ⟨rfl, rfl⟩ := work_inj (work_of_update work) hw
    cases ht with
    | skips task noop =>
      obtain rfl := htask.symm.trans task
      generalize J.of shell = es at hs
      cases hs
      simp only [deeds, task, noop, if_true, List.append_nil]
      exact .skipped noop
    | _ task =>
      obtain rfl := htask.symm.trans task
      cases hs
  | fork child next hf kept work size =>
    obtain ⟨rfl, rfl⟩ := work_inj (work_of_update work) hw
    rw [htask] at hf
    cases hf with
    | line k busy =>
      rw [after_of_work hw]
      generalize J.of shell = es at hs
      cases hs
      simp only [deeds, htask, busy]
      exact .awaitLine busy (Function.update_self _ _ _)
    | left reading writing l r => cases hs
    | right reading l r => cases hs
  | resume child e D' D'' τ' ended hr kept work size =>
    obtain ⟨rfl, rfl⟩ := work_inj (work_of_update work) hw
    rw [htask] at hr
    cases hr with
    | line r hr =>
      generalize J.of shell = es at hs
      cases hs with
      | awaitLine busy placed =>
        simp only [deeds, htask, reaping_eq ended]
        exact .executed busy (hmono _ _ placed) hr
    | left right told => cases hs
    | right status told => cases hs
    | losesLeft right err untold => cases hs
    | losesRight err untold => cases hs

/-- A step that waits for a process is noted, and the process is gone. -/
theorem reaps_step (hstep : s.step? m pid = some t) (h : .reaps q e ∈ happens m s t pid) :
    ∃ D, t.work q = some (.reaped e, D) := by
  obtain ⟨p, hp, hm⟩ := move_of_step? hstep
  cases hm with
  | turn τ D ht kept work size made =>
    rw [happens_eq hp (work_of_update work)] at h
    obtain ⟨hawaits, -⟩ := awaits_of_mem_deeds h
    rw [ht.awaits] at hawaits
    cases hawaits
  | fork child next hf kept work size =>
    rw [happens_eq hp (work_of_update work)] at h
    obtain ⟨hawaits, -⟩ := awaits_of_mem_deeds h
    rw [hf.awaits] at hawaits
    cases hawaits
  | resume child e' D' D τ ended hr kept work size =>
    rw [happens_eq hp (work_of_update work)] at h
    obtain ⟨hawaits, hended⟩ := awaits_of_mem_deeds h
    obtain rfl : child = q := Option.some.inj (hr.awaits.symm.trans hawaits)
    obtain ⟨p', hp', ht, -⟩ := work_eq_some_iff.mp ended
    rw [task?, hp', Option.map_some, ht] at hended
    obtain rfl := Task.ended.inj (Option.some.inj hended)
    have hne : child ≠ pid := by
      rintro rfl
      obtain rfl := Option.some.inj (hp.symm.trans hp')
      rw [ht] at hr
      cases hr
    exact ⟨D', by rw [work, Function.update_of_ne hne, Function.update_self]⟩

/-- What comes to be gone is noted by the process right above it. -/
theorem reaped_step (h : Chronicle m c D₀ n L J s) (hstep : s.step? m pid = some t)
    (hb : L.place q = some b) (hw : t.work q = some (.reaped e, D)) :
    (∃ D', s.work q = some (.reaped e, D')) ∨ L.Above pid b ∧ .reaps q e ∈ happens m s t pid := by
  obtain ⟨p, hp, hm⟩ := move_of_step? hstep
  have hqs : q ≠ s.processes.size := Nat.ne_of_lt (h.arranged.placed q b hb).2
  cases hm with
  | turn τ D' ht kept work size made =>
    rcases eq_or_ne q pid with rfl | hne
    · obtain ⟨rfl, -⟩ := work_inj (work_of_update work) hw
      cases ht
    · rw [work, Function.update_of_ne hne] at hw
      exact .inl ⟨D, hw⟩
  | fork child next hf kept work size =>
    rcases eq_or_ne q pid with rfl | hne
    · obtain ⟨heq, -⟩ := work_inj (work_of_update work) hw
      generalize p.task = τ at hf
      cases hf <;> cases heq
    · rw [work, Function.update_of_ne hne, Function.update_of_ne hqs] at hw
      exact .inl ⟨D, hw⟩
  | resume child e' D' D'' τ ended hr kept work size =>
    rw [happens_eq hp (work_of_update work)]
    rcases eq_or_ne q pid with rfl | hne
    · obtain ⟨rfl, -⟩ := work_inj (work_of_update work) hw
      generalize p.task = τ' at hr
      cases hr
    rcases eq_or_ne q child with rfl | hchild
    · rw [work, Function.update_of_ne hne, Function.update_self] at hw
      obtain ⟨heq, -⟩ := Prod.mk.inj (Option.some.inj hw)
      obtain rfl := Task.reaped.inj heq
      refine .inr ⟨?_, ?_⟩
      · rcases h.arranged.place_of_resumes hp hr with ⟨rfl, hnil⟩ | ⟨a, d, hpid, hcons⟩
        · exact .inl ⟨rfl, Option.some.inj (hb.symm.trans hnil)⟩
        · exact .inr ⟨d, a, hpid, Option.some.inj (hb.symm.trans hcons)⟩
      · have hdeeds : s.deeds m p (t.arguments? pid) τ = s.reaping q := by
          generalize htask : p.task = τ₀ at hr
          cases hr <;> simp only [deeds, htask]
        rw [hdeeds, reaping_eq ended]
        exact List.mem_singleton_self _
    · rw [work, Function.update_of_ne hne, Function.update_of_ne hchild] at hw
      exact .inl ⟨D, hw⟩

/-- A pipe is made only where two descriptors are free. -/
theorem limit_step (h : Chronicle m c D₀ n L J s) (hstep : s.step? m pid = some t) (a : Address)
    (i : Nat) (hi : (L.after t pid).pipe a = some i) : 2 ≤ t.descriptorLimit := by
  rw [(kept_of_step? hstep).limit]
  obtain ⟨p, hp, hm⟩ := move_of_step? hstep
  cases hm with
  | turn τ D ht kept work size made =>
    rw [after_of_work (work_of_update work)] at hi
    cases ht with
    | pipes task added => exact Descriptors.two_le_of_addPipe added
    | opens task opened =>
      rw [note_install] at hi
      exact h.limit a i hi
    | _ => exact h.limit a i hi
  | fork child next hf kept work size =>
    rw [after_of_work (work_of_update work)] at hi
    generalize p.task = τ at hf
    cases hf <;> exact h.limit a i hi
  | resume child e D' D'' τ ended hr kept work size =>
    rw [after_of_work (work_of_update work)] at hi
    generalize p.task = τ' at hr
    cases hr <;> exact h.limit a i hi

theorem above_mono (hL : ∀ q b, L.place q = some b → L'.place q = some b) {p : Pid}
    (h : L.Above p b) : L'.Above p b := by
  rcases h with hroot | ⟨d, a, hp, rfl⟩
  · exact .inl hroot
  · exact .inr ⟨d, a, hL p a hp, rfl⟩

/-- A process that is gone stays so. -/
theorem work_of_reaped (hw : s.work q = some (.reaped e, D)) (hstep : s.step? m pid = some t) :
    t.work q = some (.reaped e, D) := by
  have hne : q ≠ pid := by
    rintro rfl
    rw [Arranged.step?_eq_none_of_isOver hw ⟨e, .inr rfl⟩] at hstep
    cases hstep
  rcases work_of_step? hstep hne with hsame | ⟨e', D', hended, -⟩ | ⟨rfl, -⟩
  · rw [hsame, hw]
  · obtain ⟨heq, -⟩ := work_inj hw hended
    cases heq
  · exact absurd (lt_of_work_eq_some hw) (Nat.lt_irrefl _)

/-- What a step has made has a place. -/
theorem size_step (hstep : s.step? m pid = some t) :
    t.processes.size = s.processes.size ∨ t.processes.size = s.processes.size + 1 ∧
      ∃ b, (L.after t pid).place s.processes.size = some b := by
  obtain ⟨p, hp, hm⟩ := move_of_step? hstep
  cases hm with
  | turn τ D ht kept work size made => exact .inl size
  | resume child e D' D τ ended hr kept work size => exact .inl size
  | fork child next hf kept work size =>
    refine .inr ⟨size, ?_⟩
    rw [after_of_work (work_of_update work)]
    generalize p.task = τ at hf
    cases hf <;> exact ⟨_, Function.update_self _ _ _⟩

/-- A process that has a place now had it before, or the step has made it. -/
theorem place_cases (h : Chronicle m c D₀ n L J s) (hstep : s.step? m pid = some t)
    (hb : (L.after t pid).place q = some b) :
    L.place q = some b ∨ L.place q = none ∧ q = s.processes.size := by
  have hg := (h.arranged.grows hstep).1
  rcases hold : L.place q with _ | b'
  · exact .inr ⟨rfl, hg.eq_size hold hb⟩
  · exact .inl ((h.place_after hstep q b' hold).symm.trans hb)

/-- The journal of a step is that before for every process but that of the step. -/
theorem story_step (h : Chronicle m c D₀ n L J s) (hstep : s.step? m pid = some t)
    (hb : (L.after t pid).place q = some b) (hw : t.work q = some (τ, D)) :
    Story c (L.after t pid) b m τ ((J.note pid (happens m s t pid)).of q) := by
  refine h.arranged.forall_step hstep
    (P := fun q b τ _ => Story c (L.after t pid) b m τ ((J.note pid (happens m s t pid)).of q))
    ?_ ?_ ?_ ?_ hb hw
  · intro b τ D hpid hw
    rw [Journal.of_note_self]
    exact h.story_self hstep hpid hw
  · intro q b τ D hne hq hw
    rw [Journal.of_note_of_ne J _ hne]
    exact (h.story q b τ D hq hw).mono (h.place_after hstep)
  · intro q b e D hstory
    exact hstory.reap
  · intro b τ D hnone hb hw
    obtain ⟨p, hp, -⟩ := move_of_step? hstep
    have hne : s.processes.size ≠ pid := Nat.ne_of_gt (lt_of_getElem? hp)
    rw [Journal.of_note_of_ne J _ hne, h.silent _ h.arranged.shell_ne_size.symm hnone]
    exact (h.story_new hstep hb hw).1

/-- The shell's own part of the journal. -/
theorem atShell_step (h : Chronicle m c D₀ n L J s) (hstep : s.step? m pid = some t) :
    ∃ τ, t.work shell = some (τ, D₀) ∧
      ShellStory c (L.after t pid) τ ((J.note pid (happens m s t pid)).of shell) := by
  obtain ⟨τ, hw, -⟩ := (h.arranged.step hstep).atShell
  refine ⟨τ, hw, ?_⟩
  rcases eq_or_ne shell pid with rfl | hne
  · rw [Journal.of_note_self]
    exact h.story_shell hstep hw
  · rw [Journal.of_note_of_ne J _ hne]
    obtain ⟨τ', hτ', hs⟩ := h.atShell
    rcases work_of_step? hstep hne with hsame | ⟨e, D', hended, -⟩ | ⟨hsize, -⟩
    · obtain ⟨rfl, -⟩ := work_inj (hsame ▸ hw) hτ'
      exact hs.mono (h.place_after hstep)
    · obtain ⟨rfl, -⟩ := work_inj hτ' hended
      cases hs
    · exact absurd hsize h.arranged.shell_ne_size

theorem not_step_of_other (h : Chronicle m c D₀ n L J s) (hstep : s.step? m pid = some t)
    (hne : pid ≠ shell) : L.place pid ≠ none := by
  intro hnone
  obtain ⟨p, hp, -⟩ := move_of_step? hstep
  have hw := work_of_getElem? hp
  rw [Arranged.step?_eq_none_of_isOver hw (h.arranged.other pid _ _ hne hnone hw).1] at hstep
  cases hstep

/-- No step breaks what the journal tells. -/
theorem step (h : Chronicle m c D₀ n L J s) (hstep : s.step? m pid = some t) :
    Chronicle m c D₀ n (L.after t pid) (J.note pid (happens m s t pid)) t := by
  have hmono := h.place_after hstep
  have hmem : ∀ {r : Pid} {d : Deed}, d ∈ J.of r →
      d ∈ (J.note pid (happens m s t pid)).of r := by
    intro r d hd
    exact Journal.mem_of_iff.mpr (Journal.mem_note_iff.mpr (.inl (Journal.mem_of_iff.mp hd)))
  have hself : ∀ {d : Deed}, d ∈ happens m s t pid →
      d ∈ (J.note pid (happens m s t pid)).of pid := by
    intro d hd
    exact Journal.mem_of_iff.mpr (Journal.mem_note_iff.mpr (.inr ⟨rfl, hd⟩))
  have hsize : s.processes.size ≤ t.processes.size := by
    rcases size_step (L := L) hstep with heq | ⟨heq, -⟩ <;> omega
  have hnew : ∀ {q : Pid} {b : Address}, (L.after t pid).place q = some b →
      ∃ τ D, t.work q = some (τ, D) := by
    intro q b hb
    have hlt := ((h.arranged.step hstep).placed q b hb).2
    exact ⟨_, _, work_of_getElem? (Array.getElem?_eq_getElem hlt)⟩
  refine ⟨h.arranged.step hstep, h.limit_step hstep, h.atShell_step hstep,
    fun q b τ D hb hw => h.story_step hstep hb hw, ?_, Nat.le_trans h.size hsize, ?_, ?_, ?_, ?_, ?_⟩
  · intro q hq hnone
    have hold : L.place q = none := by
      rcases hb : L.place q with _ | b
      · rfl
      · rw [hmono q b hb] at hnone
        cases hnone
    have hne : q ≠ pid := by
      rintro rfl
      exact h.not_step_of_other hstep hq hold
    rw [Journal.of_note_of_ne J _ hne]
    exact h.silent q hq hold
  · intro q hn hq
    rcases size_step (L := L) hstep with heq | ⟨heq, b, hb⟩
    · obtain ⟨a, ha⟩ := h.placed q hn (heq ▸ hq)
      exact ⟨a, hmono q a ha⟩
    rcases Nat.lt_succ_iff_lt_or_eq.mp (heq ▸ hq) with hlt | rfl
    · obtain ⟨a, ha⟩ := h.placed q hn hlt
      exact ⟨a, hmono q a ha⟩
    · exact ⟨b, hb⟩
  · intro q b hb
    rcases h.place_cases hstep hb with hold | ⟨-, rfl⟩
    · exact h.first q b hold
    · exact h.size
  · intro q b hb
    rcases h.place_cases hstep hb with hold | ⟨-, rfl⟩
    · obtain ⟨r, habove, hr⟩ := h.forked q b hold
      exact ⟨r, above_mono hmono habove, hmem hr⟩
    · obtain ⟨τ, D, hw⟩ := hnew hb
      obtain ⟨-, habove, hforks⟩ := h.story_new hstep hb hw
      exact ⟨pid, habove, hself (hforks ▸ List.mem_singleton_self _)⟩
  · intro q b e D hb hw
    rcases h.place_cases hstep hb with hold | ⟨hnone, rfl⟩
    · rcases h.reaped_step hstep hold hw with ⟨D', hs⟩ | ⟨habove, hreaps⟩
      · obtain ⟨r, habove, hr⟩ := h.reaped q b e D' hold hs
        exact ⟨r, above_mono hmono habove, hmem hr⟩
      · exact ⟨pid, above_mono hmono habove, hself hreaps⟩
    · rcases Reaped.of_step ⟨e, D, hw⟩ hstep with ⟨e', D', hs⟩ | ⟨p, e', τ, D', hp, hr⟩
      · exact absurd (lt_of_work_eq_some hs) (Nat.lt_irrefl _)
      · rcases h.arranged.place_of_resumes hp hr with ⟨-, hroot⟩ | ⟨a, d, -, hplace⟩
        · rw [hnone] at hroot
          cases hroot
        · rw [hnone] at hplace
          cases hplace
  · intro r q e hr
    rcases Journal.mem_note_iff.mp (Journal.mem_of_iff.mp hr) with hold | ⟨rfl, hnew⟩
    · obtain ⟨D, hw⟩ := h.reaps r q e (Journal.mem_of_iff.mpr hold)
      exact ⟨D, work_of_reaped hw hstep⟩
    · exact reaps_step hstep hnew

end Chronicle

/-! ## A line -/

namespace System

theorem size_setShellTask (s : System σ) (τ : Task σ) :
    (s.setShellTask τ).processes.size = s.processes.size := by
  unfold setShellTask
  split
  · exact size_setProcess _ _ _
  · rfl

theorem chronicle_start (h : s.Idle D₀) (m : Machine σ) (c : Command) :
    Chronicle m c D₀ s.processes.size {} [] (s.setShellTask (.execute c)) where
  arranged := arranged_start h c
  limit := by rintro a i ⟨⟩
  atShell := ⟨_, by rw [work_setShellTask h, Function.update_self], .execute⟩
  story := by rintro q a τ D ⟨⟩
  silent _ _ _ := rfl
  size := Nat.le_of_eq (size_setShellTask s _).symm
  placed q hn hq := absurd (size_setShellTask s (.execute c) ▸ hq) (Nat.not_lt_of_le hn)
  first := by rintro q a ⟨⟩
  forked := by rintro q b ⟨⟩
  reaped := by rintro q b e D ⟨⟩
  reaps := by rintro p q e ⟨⟩

/-- The journal of a line tells all that its processes have done. -/
theorem chronicle_of_journaled (h : s.Idle D₀)
    (hJ : Journaled m (s.setShellTask (.execute c)) t L J) :
    Chronicle m c D₀ s.processes.size L J t := by
  induction hJ with
  | start => exact chronicle_start h m c
  | step _ hstep ih => exact ih.step hstep

end System

end LineShell
