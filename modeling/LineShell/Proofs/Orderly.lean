import LineShell.Proofs.Execution

/-!
# Who holds which end of a pipe

Where the tree is plain and the shell has files alone, an end of a pipe comes to a process by
its place only : `Layout.Allows` says which ends a place may have. `Fit` is what more is true
of a process at a point of its work : who is below it, and who of those has ended.

`Orderly` : every process is in a stage, and fit for it. No step of an ordinary machine breaks
that (`Orderly.step`).
-/

namespace LineShell

variable {σ : Type} {c : Command} {D₀ D D' : Descriptors} {T : Table} {L L' : Layout}
  {a b : Address} {τ : Task σ} {s t u : System σ} {m : Machine σ} {pid q : Pid} {p : Process σ}

/-- A stream that is no end of a pipe. -/
def Stream.IsFile (o : Stream) : Prop := ∃ f, o = .file f

/-- A stream that a process of a place may have : a file, or the end of a pipe above the place,
on the side of it that the place is on. -/
def Layout.Allows (L : Layout) (b : Address) (o : Stream) : Prop :=
  o.IsFile ∨ ∃ d a n, d :: a <:+ b ∧ L.pipe a = some n ∧ o = d.stream n

namespace System

/-- A process has ended. -/
def Over (s : System σ) (q : Pid) : Prop := ∃ τ D, s.work q = some (τ, D) ∧ τ.IsOver

/-- A process has ended and was waited for. -/
def Reaped (s : System σ) (q : Pid) : Prop := ∃ e D, s.work q = some (.reaped e, D)

end System

open LineShell.System LineShell.Layout

/-! ## The ends that a place may have -/

theorem Layout.Allows.of_suffix {o : Stream} (h : L.Allows a o) (hs : a <:+ b) : L.Allows b o := by
  rcases h with hfile | ⟨d, a', n, hs', hp, rfl⟩
  · exact .inl hfile
  · exact .inr ⟨d, a', n, hs'.trans hs, hp, rfl⟩

theorem Layout.Allows.of_agrees {o : Stream} (h : L.Allows b o) (hL : L.Agrees L' b) :
    L'.Allows b o := by
  rcases h with hfile | ⟨d, a, n, hs, hp, rfl⟩
  · exact .inl hfile
  · exact .inr ⟨d, a, n, hs, (hL.above d a hs).1.trans hp, rfl⟩

/-- A handle of a table with files in place is one of the files, or one of the table that no file
has taken the place of. -/
theorem redirected_cases {rs : List (Redirection × Stream)} {n : Nat} {h : Handle}
    (hr : redirected rs T n = some h) :
    (T n = some h ∧ ∀ r ∈ rs, r.1.descriptor.toNat ≠ n) ∨ ∃ r ∈ rs, h.stream = r.2 := by
  induction rs generalizing T with
  | nil => exact .inl ⟨hr, by rintro r ⟨⟩⟩
  | cons r rs ih =>
    rw [redirected, List.foldl_cons, ← redirected] at hr
    rcases ih hr with ⟨hT, hne⟩ | ⟨r', hmem, heq⟩
    · rw [Function.update_apply] at hT
      split at hT
      · obtain rfl := Option.some.inj hT
        exact .inr ⟨r, List.mem_cons_self, rfl⟩
      · rename_i hn
        exact .inl ⟨hT, List.forall_mem_cons.mpr ⟨Ne.symm hn, hne⟩⟩
    · exact .inr ⟨r', List.mem_cons_of_mem _ hmem, heq⟩

theorem allows_redirected {rs : List Redirection} {os : List Stream} {n : Nat} {h : Handle}
    (hos : ∀ o ∈ os, o.IsFile) (hentry : ∀ n h, L.entry c T b n = some h → L.Allows b h.stream)
    (hr : redirected (rs.zip os) (L.entry c T b) n = some h) : L.Allows b h.stream := by
  rcases redirected_cases hr with ⟨hT', -⟩ | ⟨⟨r, o⟩, hmem, heq⟩
  · exact hentry n h hT'
  · exact .inl (heq ▸ hos o (List.of_mem_zip hmem).2)

section

variable (hT : ∀ n h, T n = some h → h.stream.IsFile)
  (ho : ∀ a, ∀ o ∈ L.opened a, o.IsFile)
include hT ho

theorem allows_entry (b : Address) (n : Nat) (h : Handle) (hn : L.entry c T b n = some h) :
    L.Allows b h.stream := by
  induction b generalizing n h with
  | nil => exact .inl (hT n h hn)
  | cons d a ih =>
    rw [entry_cons, Function.update_apply] at hn
    split at hn
    · obtain ⟨k, hk, rfl⟩ := Option.map_eq_some_iff.mp hn
      exact .inr ⟨d, a, k, List.suffix_refl _, hk, rfl⟩
    · exact (allows_redirected (ho a) ih hn).of_suffix (List.suffix_cons d a)

/-- The wiring of a place has only ends that the place may have. -/
theorem allows_wiring (b : Address) (n : Nat) (h : Handle) (hn : L.wiring c T b n = some h) :
    L.Allows b h.stream :=
  allows_redirected (ho b) (allows_entry hT ho b) hn

end

/-! ## What is true at a point of the work -/

/-- What is true of a process at a place besides its stage : who is below it, who of those it
waits for was not waited for yet, and which ends of pipes it may have. -/
def Fit (L : Layout) (s : System σ) (a : Address) : Task σ → Descriptors → Prop
  | .complain _ _, D => L.Childless a ∧ ∀ n h, D.get? n = some h → L.Allows a h.stream
  | .program _, D => L.Childless a ∧ ∀ n h, D.get? n = some h → L.Allows a h.stream
  | .ended e, D =>
    e.IsTold ∧ (∀ n, D.get? n = none) ∧ ∀ q d, L.place q = some (d :: a) → s.Over q
  | .reaped _, D => (∀ n, D.get? n = none) ∧ ∀ q d, L.place q = some (d :: a) → s.Over q
  | .closeWriting _ _ left _, _ => ¬s.Reaped left
  | .forkRight _ left _, _ => ¬s.Reaped left
  | .closeReading _ left right, _ => ¬s.Reaped left ∧ ¬s.Reaped right
  | .awaitLeft left right, _ => ¬s.Reaped left ∧ ¬s.Reaped right
  | .awaitRight right, _ => ¬s.Reaped right ∧ ∀ q, L.place q = some (.left :: a) → s.Over q
  | _, _ => True

/-- Every process is in a stage of its work and fit for it. -/
structure Orderly (c : Command) (D₀ : Descriptors) (L : Layout) (s : System σ) : Prop where
  arranged : Arranged c D₀ L s
  piped : L.Piped s
  plain : s.files.Plain
  opened : ∀ a, ∀ o ∈ L.opened a, o.IsFile
  fit : ∀ q a τ D, L.place q = some a → s.work q = some (τ, D) → Fit L s a τ D
  line : ∀ line D, s.work shell = some (.awaitLine line, D) → ¬s.Reaped line

/-! ## Ended processes -/

namespace System

theorem Over.of_reaped (h : s.Reaped q) : s.Over q := by
  obtain ⟨e, D, hw⟩ := h
  exact ⟨_, D, hw, e, .inr rfl⟩

/-- A process that has ended takes no step, and stays so. -/
theorem Over.step (h : s.Over q) (hstep : s.step? m pid = some t) : t.Over q := by
  obtain ⟨τ, D, hw, hover⟩ := h
  have hne : q ≠ pid := by
    rintro rfl
    rw [Arranged.step?_eq_none_of_isOver hw hover] at hstep
    cases hstep
  rcases work_of_step? hstep hne with hsame | ⟨e, D', -, hreaped⟩ | ⟨rfl, -⟩
  · exact ⟨τ, D, by rw [hsame, hw], hover⟩
  · exact ⟨_, D', hreaped, e, .inr rfl⟩
  · exact absurd (lt_of_work_eq_some hw) (Nat.lt_irrefl _)

/-- A step waits for one process at most : that for which the process of the step waits. -/
theorem Reaped.of_step (h : t.Reaped q) (hstep : s.step? m pid = some t) :
    s.Reaped q ∨ ∃ p e τ D, s.processes[pid]? = some p ∧
      Resumes p.descriptors q e p.task τ D := by
  obtain ⟨e, D, hw⟩ := h
  obtain ⟨p, hp, hm⟩ := move_of_step? hstep
  have hkeep : s.work q = some (.reaped e, D) → s.Reaped q := fun hs => ⟨e, D, hs⟩
  cases hm with
  | turn τ D' ht kept work size made =>
    rcases eq_or_ne q pid with rfl | hne
    · obtain ⟨rfl, rfl⟩ := work_inj (work_of_update work) hw
      cases ht
    · rw [work, Function.update_of_ne hne] at hw
      exact .inl (hkeep hw)
  | fork child next hf kept work size =>
    rcases eq_or_ne q pid with rfl | hne
    · obtain ⟨heq, -⟩ := work_inj (work_of_update work) hw
      generalize p.task = τ at hf
      cases hf <;> cases heq
    rw [work, Function.update_of_ne hne] at hw
    rcases eq_or_ne q s.processes.size with rfl | hnew
    · rw [Function.update_self] at hw
      obtain ⟨rfl, -⟩ := Prod.mk.inj (Option.some.inj hw)
      generalize p.task = τ at hf
      cases hf
    · rw [Function.update_of_ne hnew] at hw
      exact .inl (hkeep hw)
  | resume child e' D' D'' τ ended hr kept work size =>
    rcases eq_or_ne q child with rfl | hchild
    · exact .inr ⟨p, e', τ, D'', hp, hr⟩
    · rcases eq_or_ne q pid with rfl | hne
      · obtain ⟨rfl, rfl⟩ := work_inj (work_of_update work) hw
        generalize p.task = τ at hr
        cases hr
      · rw [work, Function.update_of_ne hne, Function.update_of_ne hchild] at hw
        exact .inl (hkeep hw)

theorem not_reaped_of_step {r : Pid} (hstep : s.step? m pid = some t)
    (hp : s.processes[pid]? = some p) (hr : ∀ e τ D, ¬Resumes p.descriptors r e p.task τ D)
    (hn : ¬s.Reaped r) : ¬t.Reaped r := by
  intro ht
  rcases ht.of_step hstep with hs | ⟨p', e, τ, D, hp', hres⟩
  · exact hn hs
  · obtain rfl := Option.some.inj (hp.symm.trans hp')
    exact hr e τ D hres

/-- A process that was made just now was not waited for. -/
theorem not_reaped_size {child : Task σ} {next : Pid → Task σ} (hp : s.processes[pid]? = some p)
    (hf : Forks p.task child next)
    (hwork : t.work = Function.update
      (Function.update s.work s.processes.size (some (child, p.descriptors)))
      pid (some (next s.processes.size, p.descriptors))) : ¬t.Reaped s.processes.size := by
  rintro ⟨e, D, hr⟩
  rw [hwork, Function.update_of_ne (Nat.ne_of_gt (lt_of_getElem? hp)), Function.update_self] at hr
  obtain ⟨heq, -⟩ := Prod.mk.inj (Option.some.inj hr)
  generalize p.task = τ at hf
  cases hf <;> cases heq

end System

/-! ## What one step keeps -/

theorem Arranged.shellStage (h : Arranged c D₀ L s) (hw : s.work shell = some (τ, D)) :
    ShellStage c L τ := by
  obtain ⟨τ', hτ', hs⟩ := h.atShell
  obtain ⟨rfl, -⟩ := work_inj hw hτ'
  exact hs

/-- What is true of the process of a step, and of the others before the step, is true of all that
have a place after it, if it is true of what the step has made and if waiting does not change it. -/
theorem Arranged.forall_step (h : Arranged c D₀ L s) (hstep : s.step? m pid = some t)
    {P : Pid → Address → Task σ → Descriptors → Prop}
    (self : ∀ a τ D, L.place pid = some a → t.work pid = some (τ, D) → P pid a τ D)
    (other : ∀ q a τ D, q ≠ pid → L.place q = some a → s.work q = some (τ, D) → P q a τ D)
    (reap : ∀ q a e D, P q a (.ended e) D → P q a (.reaped e) D)
    (new : ∀ a τ D, L.place s.processes.size = none →
      (L.after t pid).place s.processes.size = some a →
        t.work s.processes.size = some (τ, D) → P s.processes.size a τ D)
    (hq : (L.after t pid).place q = some a) (hw : t.work q = some (τ, D)) : P q a τ D := by
  have hg := (h.grows hstep).1
  rcases hold : L.place q with _ | b
  · obtain rfl := hg.eq_size hold hq
    exact new a τ D hold hq hw
  obtain rfl := Option.some.inj ((h.place_of_grows hg hold).symm.trans hq)
  rcases eq_or_ne q pid with rfl | hne
  · exact self b τ D hold hw
  rcases work_of_step? hstep hne with hsame | ⟨e, D', hended, hreaped⟩ | ⟨rfl, -⟩
  · exact other q b τ D hne hold (hsame ▸ hw)
  · obtain ⟨rfl, rfl⟩ := work_inj hreaped hw
    exact reap q b e D' (other q b _ _ hne hold hended)
  · rw [h.new_not_placed] at hold
    cases hold

/-- In a plain tree what is opened is a file. -/
theorem Arranged.isFile_of_opened (h : Arranged c D₀ L s) (hstep : s.step? m pid = some t)
    (hplain : s.files.Plain) (hopened : ∀ a, ∀ o ∈ L.opened a, o.IsFile) (b : Address) (o : Stream)
    (ho : o ∈ (L.after t pid).opened b) : o.IsFile := by
  rcases h.opened_after hstep with heq | ⟨a, p, r, o', v, -, -, -, hopen, heq, -⟩
  · exact hopened b o (heq ▸ ho)
  rw [heq, Function.update_apply] at ho
  split at ho
  · rcases List.mem_append.mp ho with ho | ho
    · exact hopened a o ho
    · obtain rfl := List.mem_singleton.mp ho
      exact (openStream_plain hplain hopen).1
  · exact hopened b o ho

/-- The process that another waits for is right below it, or the line of the shell. -/
theorem Arranged.place_of_resumes (h : Arranged c D₀ L s) {e : Ending}
    (hp : s.processes[pid]? = some p) (hr : Resumes p.descriptors q e p.task τ D) :
    (pid = shell ∧ L.place q = some []) ∨
      ∃ a d, L.place pid = some a ∧ L.place q = some (d :: a) := by
  have hw := work_of_getElem? hp
  rcases hpid : L.place pid with _ | a
  · rcases eq_or_ne pid shell with rfl | hne
    · have hs := h.shellStage hw
      generalize p.task = τ' at hs hr
      cases hs with
      | begins none => cases hr
      | done r => cases hr
      | waits placed =>
        cases hr with
        | line r => exact .inl ⟨rfl, placed⟩
    · obtain ⟨⟨e', he' | he'⟩, -⟩ := h.other pid _ _ hne hpid hw <;>
        rw [he'] at hr <;> cases hr
  · have hs := h.stage pid a _ _ hpid hw
    generalize p.task = τ' at hs hr
    cases hr with
    | line r => cases hs
    | left right told =>
      cases hs with
      | awaitLeft splits placed placedRight table => exact .inr ⟨a, .left, rfl, placed⟩
    | losesLeft right err hn =>
      cases hs with
      | awaitLeft splits placed placedRight table => exact .inr ⟨a, .left, rfl, placed⟩
    | right status told =>
      cases hs with
      | awaitRight splits placedRight table => exact .inr ⟨a, .right, rfl, placedRight⟩
    | losesRight err hn =>
      cases hs with
      | awaitRight splits placedRight table => exact .inr ⟨a, .right, rfl, placedRight⟩

namespace Orderly

/-- A process right below another is not waited for by anybody else. -/
theorem not_reaped (h : Orderly c D₀ L s) (hstep : s.step? m pid = some t) {r : Pid} {d : Side}
    (hne : q ≠ pid) (hq : L.place q = some b) (hr : L.place r = some (d :: b))
    (hn : ¬s.Reaped r) : ¬t.Reaped r := by
  intro ht
  rcases ht.of_step hstep with hs | ⟨p, e, τ, D, hp, hres⟩
  · exact hn hs
  rcases h.arranged.place_of_resumes hp hres with ⟨-, hnil⟩ | ⟨a, e', hpid, hcons⟩
  · rw [hr] at hnil
    cases hnil
  · rw [hr] at hcons
    obtain ⟨-, rfl⟩ := List.cons.inj (Option.some.inj hcons)
    exact hne (h.arranged.inj q pid b hq hpid)

/-- What is true of a process stays true while others take steps. -/
theorem fit_persists (h : Orderly c D₀ L s) (hstep : s.step? m pid = some t) (hne : q ≠ pid)
    (hq : L.place q = some b) (hw : s.work q = some (τ, D)) :
    Fit (L.after t pid) t b τ D := by
  have hL := h.arranged.agrees_of_grows (h.arranged.grows hstep).1 hne hq
  have hs := h.arranged.stage q b τ D hq hw
  have hf := h.fit q b τ D hq hw
  have hover : ∀ d, (∀ r, L.place r = some (d :: b) → s.Over r) →
      ∀ r, (L.after t pid).place r = some (d :: b) → t.Over r :=
    fun d ho r hr => (ho r ((hL.below r d).mp hr)).step hstep
  have hnot : ∀ r d, L.place r = some (d :: b) → ¬s.Reaped r → ¬t.Reaped r :=
    fun r d hr hn => h.not_reaped hstep hne hq hr hn
  cases hs with
  | complain =>
    obtain ⟨hc, ha⟩ := hf
    exact ⟨childless_of_agrees hL hc, fun n k hn => (ha n k hn).of_agrees hL⟩
  | program =>
    obtain ⟨hc, ha⟩ := hf
    exact ⟨childless_of_agrees hL hc, fun n k hn => (ha n k hn).of_agrees hL⟩
  | ended =>
    obtain ⟨htold, hnone, ho⟩ := hf
    exact ⟨htold, hnone, fun r d => hover d (fun r' => ho r' d) r⟩
  | reaped =>
    obtain ⟨hnone, ho⟩ := hf
    exact ⟨hnone, fun r d => hover d (fun r' => ho r' d) r⟩
  | closeWriting splits placed => exact hnot _ _ placed hf
  | forkRight splits placed => exact hnot _ _ placed hf
  | closeReading splits placed placedRight =>
    exact ⟨hnot _ _ placed hf.1, hnot _ _ placedRight hf.2⟩
  | awaitLeft splits placed placedRight =>
    exact ⟨hnot _ _ placed hf.1, hnot _ _ placedRight hf.2⟩
  | awaitRight splits placedRight =>
    exact ⟨hnot _ _ placedRight hf.1, hover .left hf.2⟩
  | _ => trivial

/-- A process of a place that goes on alone is fit for its next stage. -/
theorem fit_turn (h : Orderly c D₀ L s) (hD₀ : ∀ n k, D₀.get? n = some k → k.stream.IsFile)
    (hm : m.Ordinary) (hstep : s.step? m pid = some t) (hp : s.processes[pid]? = some p)
    (hpid : L.place pid = some a) (ht : Turn m s p τ D) : Fit (L.note a τ D) t a τ D := by
  have hw := work_of_getElem? hp
  have hs := h.arranged.stage pid a _ _ hpid hw
  have hf := h.fit pid a _ _ hpid hw
  have hwiring : ∀ b n k, L.wiring c D₀.get? b n = some k → L.Allows b k.stream :=
    allows_wiring hD₀ h.opened
  have hnot : ∀ r, (∀ e τ D, ¬Resumes p.descriptors r e p.task τ D) → ¬s.Reaped r → ¬t.Reaped r :=
    fun r => not_reaped_of_step hstep hp
  cases ht with
  | skips task | unwraps task | pipes task added | settles task | opens task opened
  | installs task installed | leaves task | attaches task installed => trivial
  | exits task =>
    rw [task] at hs
    cases hs with
    | run part rest opened childless table =>
      exact ⟨⟨0, rfl⟩, fun _ => rfl, fun q d hq => absurd hq (childless q d)⟩
  | refuses task =>
    rw [task] at hs
    cases hs with
    | run part rest opened childless table =>
      exact ⟨childless, fun n k hn => hwiring a n k (table ▸ hn)⟩
  | loads task =>
    rw [task] at hs
    cases hs with
    | run part rest opened childless table =>
      refine ⟨childless, fun n k hn => hwiring a n k ?_⟩
      rw [Descriptors.get?_acrossExec, Option.filter_eq_some_iff] at hn
      exact table ▸ hn.1
  | lacksPipe task =>
    rw [task] at hs
    cases hs with
    | run part rest opened childless table =>
      exact ⟨childless, fun n k hn => hwiring a n k (table ▸ hn)⟩
  | lacksFile task =>
    rw [task] at hs
    cases hs with
    | open_ part rest opened childless table =>
      exact ⟨childless, fun n k hn => hwiring a n k (table ▸ hn)⟩
  | misplaces task =>
    rw [task] at hs
    cases hs with
    | install part rest opened length childless free table =>
      refine ⟨childless, fun n k hn => ?_⟩
      rw [Descriptors.get?_close_fresh table free] at hn
      refine allows_redirected (fun o ho => h.opened a o ?_) (allows_entry hD₀ h.opened a) hn
      rw [opened]
      exact List.mem_append_left _ ho
  | misattaches task =>
    rw [task] at hs
    cases hs with
    | attach cons eq part opened childless pipe free table =>
      refine ⟨childless, fun n k hn => ?_⟩
      rw [Descriptors.get?_close_fresh table free] at hn
      subst cons
      exact (hwiring _ n k hn).of_suffix (List.suffix_cons _ _)
  | closesWriting task =>
    rw [task] at hf hnot
    exact hnot _ (by rintro e τ D ⟨⟩) hf
  | closesReading task =>
    rw [task] at hf hnot
    exact ⟨hnot _ (by rintro e τ D ⟨⟩) hf.1, hnot _ (by rintro e τ D ⟨⟩) hf.2⟩
  | complains task =>
    rw [task] at hf
    exact hf
  | hushes task how =>
    rw [task] at hf
    exact ⟨how.isTold, fun _ => rfl, fun q d hq => absurd hq (hf.1 q d)⟩
  | goesOn task =>
    rw [task] at hf
    exact hf
  | closes task =>
    rw [task] at hf
    refine ⟨hf.1, fun n k hn => ?_⟩
    rw [Descriptors.get?_close] at hn
    split at hn
    · cases hn
    · exact hf.2 n k hn
  | adds task opened =>
    rw [task] at hf
    refine ⟨hf.1, fun n k hn => ?_⟩
    rw [Descriptors.get?_set] at hn
    split at hn
    · obtain rfl := Option.some.inj hn
      exact .inl (openStream_plain h.plain opened).1
    · exact hf.2 n k hn
  | ends task how =>
    rw [task] at hf
    exact ⟨how.isTold hm.told, fun _ => rfl, fun q d hq => absurd hq (hf.1 q d)⟩

/-- A process that makes another is fit for its next stage. -/
theorem fit_forks (h : Orderly c D₀ L s) {child : Task σ} {next : Pid → Task σ}
    (hstep : s.step? m pid = some t) (hp : s.processes[pid]? = some p)
    (hpid : L.place pid = some a) (hf : Forks p.task child next)
    (hwork : t.work = Function.update
      (Function.update s.work s.processes.size (some (child, p.descriptors)))
      pid (some (next s.processes.size, p.descriptors))) :
    Fit L' t a (next s.processes.size) p.descriptors := by
  have hw := work_of_getElem? hp
  have hs := h.arranged.stage pid a _ _ hpid hw
  have hfit := h.fit pid a _ _ hpid hw
  have hnew := not_reaped_size hp hf hwork
  have hnot : ∀ r, (∀ e τ D, ¬Resumes p.descriptors r e p.task τ D) → ¬s.Reaped r → ¬t.Reaped r :=
    fun r => not_reaped_of_step hstep hp
  generalize p.task = τ at hs hf hfit hnot
  cases hf with
  | line c' => cases hs
  | left reading writing l r => exact hnew
  | right reading l r => exact ⟨hnot l (by rintro e τ D ⟨⟩) hfit, hnew⟩

/-- A process that has waited for another is fit for its next stage. -/
theorem fit_resumes (h : Orderly c D₀ L s) {e : Ending} (hstep : s.step? m pid = some t)
    (hp : s.processes[pid]? = some p) (hpid : L.place pid = some a)
    (hq : s.work q = some (.ended e, D')) (hr : Resumes p.descriptors q e p.task τ D)
    (hwork : t.work = Function.update (Function.update s.work q (some (.reaped e, D')))
      pid (some (τ, D))) : Fit L t a τ D := by
  have hw := work_of_getElem? hp
  have hs := h.arranged.stage pid a _ _ hpid hw
  have hfit := h.fit pid a _ _ hpid hw
  have hne : q ≠ pid := by
    rintro rfl
    obtain ⟨heq, -⟩ := work_inj hw hq
    rw [heq] at hr
    cases hr
  have hover : t.Over q :=
    .of_reaped ⟨e, D', by rw [hwork, Function.update_of_ne hne, Function.update_self]⟩
  have htold : ∀ b, L.place q = some b → e.IsTold := fun b hb => (h.fit q b _ _ hb hq).1
  have hnot : ∀ r, (∀ e τ D, ¬Resumes p.descriptors r e p.task τ D) → ¬s.Reaped r → ¬t.Reaped r :=
    fun r => not_reaped_of_step hstep hp
  generalize p.task = τ' at hs hr hfit hnot
  cases hr with
  | line r => cases hs
  | left right told =>
    cases hs with
    | awaitLeft splits placed placedRight table =>
      refine ⟨hnot right ?_ hfit.2, fun r hrp => ?_⟩
      · intro e' τ'' D'' hres
        cases hres with
        | left r told | losesLeft r err hn =>
          rw [placed] at placedRight
          cases placedRight
      · obtain rfl := h.arranged.inj r q _ hrp placed
        exact hover
  | right status told =>
    cases hs with
    | awaitRight splits placedRight table =>
      refine ⟨Ending.isTold_ofCode status, fun _ => rfl, fun r d hrp => ?_⟩
      cases d with
      | left => exact (hfit.2 r hrp).step hstep
      | right =>
        obtain rfl := h.arranged.inj r q _ hrp placedRight
        exact hover
  | losesLeft right err hn =>
    cases hs with
    | awaitLeft splits placed placedRight table =>
      exact absurd (htold _ placed) (Ending.not_isTold hn)
  | losesRight err hn =>
    cases hs with
    | awaitRight splits placedRight table =>
      exact absurd (htold _ placedRight) (Ending.not_isTold hn)

/-- The process of a step is fit for its next stage. -/
theorem fit_of_step (h : Orderly c D₀ L s) (hD₀ : ∀ n k, D₀.get? n = some k → k.stream.IsFile)
    (hm : m.Ordinary) (hstep : s.step? m pid = some t) (hpid : L.place pid = some a)
    (hw : t.work pid = some (τ, D)) : Fit (L.after t pid) t a τ D := by
  obtain ⟨p, hp, hmove⟩ := move_of_step? hstep
  cases hmove with
  | turn τ' D' ht kept work size made =>
    obtain ⟨rfl, rfl⟩ := work_inj (work_of_update work) hw
    rw [after_eq (work_of_update work) hpid]
    exact h.fit_turn hD₀ hm hstep hp hpid ht
  | fork child next hf kept work size =>
    obtain ⟨rfl, rfl⟩ := work_inj (work_of_update work) hw
    exact h.fit_forks hstep hp hpid hf work
  | resume child e D' D'' τ' ended hr kept work size =>
    obtain ⟨rfl, rfl⟩ := work_inj (work_of_update work) hw
    have hafter : L.after t pid = L := by
      rw [after_eq (work_of_update work) hpid]
      generalize p.task = τ'' at hr
      cases hr <;> rfl
    rw [hafter]
    exact h.fit_resumes hstep hp hpid ended hr work

/-- Of a process that was made by the step, nothing more has to be true. -/
theorem fit_new (hstep : s.step? m pid = some t) (hw : t.work s.processes.size = some (τ, D)) :
    Fit L' t b τ D := by
  obtain ⟨τ', next, hf⟩ := forks_of_new hstep hw
  cases hf <;> trivial

/-- Every process stays fit. -/
theorem fit_step (h : Orderly c D₀ L s) (hD₀ : ∀ n k, D₀.get? n = some k → k.stream.IsFile)
    (hm : m.Ordinary) (hstep : s.step? m pid = some t) (hq : (L.after t pid).place q = some b)
    (hw : t.work q = some (τ, D)) : Fit (L.after t pid) t b τ D :=
  h.arranged.forall_step hstep (P := fun _ b τ D => Fit (L.after t pid) t b τ D)
    (fun _ _ _ hpid hw => h.fit_of_step hD₀ hm hstep hpid hw)
    (fun _ _ _ _ hne hq hw => h.fit_persists hstep hne hq hw)
    (fun _ _ _ _ hfit => ⟨hfit.2.1, hfit.2.2⟩)
    (fun _ _ _ _ _ hw => fit_new hstep hw) hq hw

/-- Nobody but the shell waits for the process of the line. -/
theorem line_step (h : Orderly c D₀ L s) (hstep : s.step? m pid = some t) {line : Pid}
    (hw : t.work shell = some (.awaitLine line, D)) : ¬t.Reaped line := by
  obtain ⟨p, hp, hmove⟩ := move_of_step? hstep
  rcases eq_or_ne shell pid with rfl | hne
  · cases hmove with
    | turn τ D' ht kept work size made =>
      obtain ⟨rfl, rfl⟩ := work_inj (work_of_update work) hw
      cases ht
    | fork child next hf kept work size =>
      have hnew := not_reaped_size hp hf work
      obtain ⟨heq, -⟩ := work_inj (work_of_update work) hw
      generalize p.task = τ at hf
      cases hf with
      | line c' =>
        cases heq
        exact hnew
      | left reading writing l r => cases heq
      | right reading l r => cases heq
    | resume child e D' D'' τ ended hr kept work size =>
      obtain ⟨rfl, rfl⟩ := work_inj (work_of_update work) hw
      generalize p.task = τ' at hr
      cases hr
  rcases work_of_step? hstep hne with hsame | ⟨e, D', -, hreaped⟩ | ⟨hsize, -⟩
  · rw [hsame] at hw
    refine not_reaped_of_step hstep hp (fun e τ D'' hres => ?_) (h.line line D hw)
    cases h.arranged.shellStage hw with
    | waits placed =>
      rcases h.arranged.place_of_resumes hp hres with ⟨heq, -⟩ | ⟨a, d, -, hcons⟩
      · exact hne heq.symm
      · rw [placed] at hcons
        cases hcons
  · rw [hreaped] at hw
    cases hw
  · exact absurd hsize h.arranged.shell_ne_size

/-- No step of an ordinary machine breaks the order, if the shell has files alone. -/
theorem step (h : Orderly c D₀ L s) (hD₀ : ∀ n k, D₀.get? n = some k → k.stream.IsFile)
    (hm : m.Ordinary) (hstep : s.step? m pid = some t) : Orderly c D₀ (L.after t pid) t where
  arranged := h.arranged.step hstep
  piped := h.piped.of_grows (h.arranged.grows hstep).1 (h.arranged.grows hstep).2
  plain := (kept_of_step? hstep).plain hm.plain h.plain
  opened := h.arranged.isFile_of_opened hstep h.plain h.opened
  fit _ _ _ _ hq hw := h.fit_step hD₀ hm hstep hq hw
  line _ _ hw := h.line_step hstep hw

end Orderly

end LineShell
