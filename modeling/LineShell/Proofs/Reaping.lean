import LineShell.Proofs.Loading
import Mathlib.Data.List.Nodup
import Mathlib.Data.List.Perm.Subperm

/-!
# All processes of a line are waited for

`Command.places` are the places of the processes of a command, if it is known at which places a
redirection is refused : a process for the command, and two for every pipe that is come to
(`Command.length_places`).

`System.all_reaped` : once a line has been executed, every process made for it has ended and
was waited for by the process that made it, every leaf that was come to has become its program or
failed to exactly once, unless an argument holds a zero byte, and there was a process at each of the
places and nowhere else.
-/

namespace LineShell

open LineShell.System LineShell.Layout

variable {σ : Type} {c k left right : Command} {D₀ D : Descriptors} {L : Layout} {J : Journal}
  {a b : Address} {s t : System σ} {m : Machine σ} {q l r : Pid} {e : Ending} {n : Nat}
  {es : List Deed}

/-- The process gives a redirection up. -/
def Deed.isRefusal : Deed → Bool
  | .refuses _ => true
  | _ => false

/-- A redirection at a place was given up. -/
def Journal.refusedAt (J : Journal) (L : Layout) (a : Address) : Bool :=
  (J.doneAt L a).any Deed.isRefusal

/-! ## The places of a command -/

namespace Command

variable (refused : Address → Bool)

/-- The places of the processes of a command at a place : the place itself, and those of both
sides of a pipe, if no redirection of it is refused. -/
def places : Command → Address → List Address
  | .exec _, a => [a]
  | .redirect target _, a => target.places a
  | .pipe left right, a =>
    if refused a then [a] else a :: (left.places (.left :: a) ++ right.places (.right :: a))

/-- The number of pipes of a command at a place that are come to : no redirection of them, or of
a pipe around them, is refused. -/
def pipesReached : Command → Address → Nat
  | .exec _, _ => 0
  | .redirect target _, a => target.pipesReached a
  | .pipe left right, a =>
    if refused a then 0 else 1 + left.pipesReached (.left :: a) + right.pipesReached (.right :: a)

/-- A command has one process, and two for every pipe that is come to. -/
theorem length_places (k : Command) (a : Address) :
    (k.places refused a).length = 1 + 2 * k.pipesReached refused a := by
  induction k generalizing a with
  | exec argv => rfl
  | redirect target r ih => exact ih a
  | pipe left right ihl ihr =>
    rw [places, pipesReached]
    split
    · rfl
    · rw [List.length_cons, List.length_append, ihl, ihr]
      omega

theorem suffix_of_mem_places (hb : b ∈ k.places refused a) : a <:+ b := by
  induction k generalizing a with
  | exec argv => exact List.mem_singleton.mp hb ▸ List.suffix_refl _
  | redirect target r ih => exact ih hb
  | pipe left right ihl ihr =>
    rw [places] at hb
    split at hb
    · exact List.mem_singleton.mp hb ▸ List.suffix_refl _
    rcases List.mem_cons.mp hb with rfl | hb
    · exact List.suffix_refl _
    rcases List.mem_append.mp hb with hb | hb
    · exact (List.suffix_cons _ _).trans (ihl hb)
    · exact (List.suffix_cons _ _).trans (ihr hb)

theorem mem_places_self (k : Command) (a : Address) : a ∈ k.places refused a := by
  induction k with
  | exec argv => exact List.mem_singleton_self a
  | redirect target r ih => exact ih
  | pipe left right ihl ihr =>
    rw [places]
    split <;> exact List.mem_cons_self

/-- No place of a command is the place of two of its processes. -/
theorem nodup_places (k : Command) (a : Address) : (k.places refused a).Nodup := by
  induction k generalizing a with
  | exec argv => exact List.nodup_singleton a
  | redirect target r ih => exact ih a
  | pipe left right ihl ihr =>
    rw [places]
    split
    · exact List.nodup_singleton a
    refine List.nodup_cons.mpr ⟨fun ha => ?_, List.nodup_append.mpr ⟨ihl _, ihr _, ?_⟩⟩
    · -- the places on the sides are longer
      rcases List.mem_append.mp ha with ha | ha <;>
        exact absurd rfl (Layout.ne_of_cons_suffix (suffix_of_mem_places refused ha))
    · rintro b hl b' hr rfl
      have heq := List.suffix_or_suffix_of_suffix (suffix_of_mem_places refused hl)
        (suffix_of_mem_places refused hr)
      rcases heq with h | h <;> cases h.eq_of_length rfl

end Command

theorem eq_or_exists_cons_suffix (h : a <:+ b) : a = b ∨ ∃ d, d :: a <:+ b := by
  obtain ⟨above, rfl⟩ := h
  rcases List.eq_nil_or_concat above with rfl | ⟨above, d, rfl⟩
  · exact .inl rfl
  · exact .inr ⟨d, above, by simp⟩

/-! ## What the processes have done that have ended -/

theorem Ending.isTold_killed_iff : (Ending.killed n).IsTold ↔ 1 ≤ n ∧ n ≤ 31 := by
  rw [IsTold, status?]
  split <;> simp_all

theorem isTold_of_standard
    (hm : ∀ state signal, m.act state = .raise signal → 1 ≤ signal ∧ signal ≤ 31) :
    ∀ state signal, m.act state = .raise signal → (Ending.killed signal).IsTold :=
  fun state signal hact => Ending.isTold_killed_iff.mpr (hm state signal hact)

theorem Finale.isTold
    (hm : ∀ state signal, m.act state = .raise signal → (Ending.killed signal).IsTold)
    (h : Finale c L a m es e) : e.IsTold := by
  cases h with
  | empty core => exact ⟨0, rfl⟩
  | program core free how => exact how.isTold hm
  | fails failure utters =>
    cases utters with
    | told all => exact Ending.isTold_ofCode _
    | untold part => exact Ending.isTold_ofCode _
    | broken part => exact ⟨141, rfl⟩
  | pipe sides told => exact Ending.isTold_ofCode _

theorem eq_of_mem_performed {d : Deed} {rs : List Redirection} (h : d ∈ performed rs) :
    ∃ r, d = .opens r ∨ d = .places r := by
  obtain ⟨r, -, hd⟩ := List.mem_flatMap.mp h
  exact ⟨r, by simpa using hd⟩

theorem forks_not_mem_performed {rs : List Redirection} : .forks q ∉ performed rs := by
  intro h
  obtain ⟨r, hr | hr⟩ := eq_of_mem_performed h <;> cases hr

theorem any_isRefusal_performed (rs : List Redirection) :
    (performed rs).any Deed.isRefusal = false := by
  rw [List.any_eq_false]
  intro d hd
  obtain ⟨r, rfl | rfl⟩ := eq_of_mem_performed hd <;> exact Bool.false_ne_true

theorem filter_isLoading_performed (rs : List Redirection) :
    (performed rs).filter Deed.isLoading = [] := by
  rw [List.filter_eq_nil_iff]
  intro d hd
  obtain ⟨r, rfl | rfl⟩ := eq_of_mem_performed hd <;> exact Bool.false_ne_true

/-- A process that writes a message does nothing else. -/
theorem Utters.eq_of_mem {message : Bytes} {code : Nat} {said : List Deed} {d : Deed}
    (h : Utters message code said e) (hd : d ∈ said) :
    (∃ data, d = .prints data) ∨ (∃ err, d = .mutes err) ∨ d = .breaks := by
  cases h with
  | told all =>
    obtain ⟨data, -, rfl⟩ := List.mem_map.mp hd
    exact .inl ⟨data, rfl⟩
  | untold part =>
    rcases List.mem_append.mp hd with hd | hd
    · obtain ⟨data, -, rfl⟩ := List.mem_map.mp hd
      exact .inl ⟨data, rfl⟩
    · exact .inr (.inl ⟨_, List.mem_singleton.mp hd⟩)
  | broken part =>
    rcases List.mem_append.mp hd with hd | hd
    · obtain ⟨data, -, rfl⟩ := List.mem_map.mp hd
      exact .inl ⟨data, rfl⟩
    · exact .inr (.inr (List.mem_singleton.mp hd))

/-- What a process of a place has done that has ended, where the end of every process that was
waited for could be told. -/
inductive Ended (c : Command) (L : Layout) (a : Address) (es : List Deed) (e : Ending) : Prop
  | leaf {argv : List Bytes} (core : c.core? a = some (.exec argv))
      (loading : Loading argv (es.filter Deed.isLoading))
      (forks : ∀ q, .forks q ∉ es) (refused : es.any Deed.isRefusal = false)
  | refused (refused : es.any Deed.isRefusal = true) (forks : ∀ q, .forks q ∉ es)
  | pipeless (lacks : .lacksPipe ∈ es)
  | pipe {l r : Pid} {el er : Ending} {status : Nat} (sides : Sides c L a l r)
      (deeds : es = performed (c.redirectionsAt a) ++
        [.forks l, .forks r, .reaps l el, .reaps r er])
      (told : er.status? = .ok status) (eq : e = .ofCode status)

theorem Utters.silent {message : Bytes} {code : Nat} {said : List Deed}
    (h : Utters message code said e) :
    (∀ q, .forks q ∉ said) ∧ said.any Deed.isRefusal = false ∧
      said.filter Deed.isLoading = [] := by
  refine ⟨fun q hq => ?_, ?_, ?_⟩
  · rcases h.eq_of_mem hq with ⟨data, hd⟩ | ⟨err, hd⟩ | hd <;> cases hd
  · rw [List.any_eq_false]
    intro d hd
    rcases h.eq_of_mem hd with ⟨data, rfl⟩ | ⟨err, rfl⟩ | rfl <;> exact Bool.false_ne_true
  · rw [List.filter_eq_nil_iff]
    intro d hd
    rcases h.eq_of_mem hd with ⟨data, rfl⟩ | ⟨err, rfl⟩ | rfl <;> exact Bool.false_ne_true

/-- A process of a place does the redirections, then one more thing, and writes a message if that
fails. -/
theorem Finale.ended (h : Finale c L a m es e)
    (htold : ∀ q b e', .reaps q e' ∈ es → L.place q = some b → e'.IsTold) : Ended c L a es e := by
  cases h with
  | empty core =>
    exact .leaf core (filter_isLoading_performed _ ▸ .empty) (fun _ => forks_not_mem_performed)
      (any_isRefusal_performed _)
  | program core free how =>
    refine .leaf core ?_ (fun q hq => ?_) ?_
    · simpa [filter_isLoading_performed, List.filter_cons, Deed.isLoading] using .execs free
    · simp [forks_not_mem_performed] at hq
    · simp [any_isRefusal_performed, Deed.isRefusal]
  | pipe sides told => exact .pipe sides rfl told rfl
  | @fails es' said pieces code e failure utters =>
    obtain ⟨hforks, hrefused, hloading⟩ := utters.silent
    cases failure with
    | unopened redirections | unplaced redirections =>
      refine .refused ?_ (fun q hq => ?_)
      · simp [any_isRefusal_performed, Deed.isRefusal]
      · simp [forks_not_mem_performed, hforks] at hq
    | zero core holds =>
      refine .leaf core ?_ (fun q hq => ?_) ?_
      · simpa [filter_isLoading_performed, List.filter_cons, Deed.isLoading, hloading] using
          .balks holds
      · simp [forks_not_mem_performed, hforks] at hq
      · simp [any_isRefusal_performed, Deed.isRefusal, hrefused]
    | unloaded core free =>
      refine .leaf core ?_ (fun q hq => ?_) ?_
      · simpa [filter_isLoading_performed, List.filter_cons, Deed.isLoading, hloading] using
          .lacks free
      · simp [forks_not_mem_performed, hforks] at hq
      · simp [any_isRefusal_performed, Deed.isRefusal, hrefused]
    | pipeless core => exact .pipeless (by simp)
    | losesLeft sides untold =>
      exact absurd (htold _ _ _ (by simp) sides.left) (Ending.not_isTold untold)
    | losesRight sides untold =>
      exact absurd (htold _ _ _ (by simp) sides.right) (Ending.not_isTold untold)

namespace Chronicle

/-- What a process has done that is gone. -/
theorem finale_of_reaped (h : Chronicle m c D₀ n L J s) (hq : L.place q = some b)
    (hw : s.work q = some (.reaped e, D)) : Finale c L b m (J.of q) e := by
  cases h.story q b _ _ hq hw with
  | reaped finale => exact finale

section

variable (hm : ∀ state signal, m.act state = .raise signal → (Ending.killed signal).IsTold)
include hm

/-- The end of a process that was waited for can be told. -/
theorem isTold_of_reaps (h : Chronicle m c D₀ n L J s) (hq : L.place q = some b)
    (hr : .reaps q e ∈ J.of r) : e.IsTold := by
  obtain ⟨D, hw⟩ := h.reaps r q e hr
  exact (h.finale_of_reaped hq hw).isTold hm

theorem ended_of_reaped (h : Chronicle m c D₀ n L J s) (hq : L.place q = some b)
    (hw : s.work q = some (.reaped e, D)) : Ended c L b (J.of q) e :=
  (h.finale_of_reaped hq hw).ended fun _ _ _ hr hb => h.isTold_of_reaps hm hb hr

/-- The processes on both sides of a pipe come from the process of the pipe, which has waited for
both. -/
theorem sides_of_forks (h : Chronicle m c D₀ n L J s) (hq : L.place q = some b)
    (hw : s.work q = some (.reaped e, D)) (hpipe : ∀ q, .lacksPipe ∉ J.of q)
    (hr : .forks r ∈ J.of q) :
    ∃ l r el er, Sides c L b l r ∧ J.of q = performed (c.redirectionsAt b) ++
      [.forks l, .forks r, .reaps l el, .reaps r er] := by
  cases h.ended_of_reaped hm hq hw with
  | leaf core loading forks refused => exact absurd hr (forks r)
  | refused refused forks => exact absurd hr (forks r)
  | pipeless lacks => exact absurd lacks (hpipe q)
  | pipe sides deeds told eq => exact ⟨_, _, _, _, sides, deeds⟩

/-- A process that is gone and was to make a pipe has made both sides, unless a redirection was
refused. -/
theorem sides_of_core (h : Chronicle m c D₀ n L J s) (hq : L.place q = some b)
    (hw : s.work q = some (.reaped e, D)) (hpipe : ∀ q, .lacksPipe ∉ J.of q)
    (core : c.core? b = some (.pipe left right)) (hrefused : J.refusedAt L b = false) :
    ∃ l r, Sides c L b l r := by
  have hdone : J.doneAt L b = J.of q :=
    Journal.doneAt_eq_of hq fun r hr => h.arranged.inj r q b hr hq
  rw [Journal.refusedAt, hdone] at hrefused
  cases h.ended_of_reaped hm hq hw with
  | leaf core' loading forks refused =>
    rw [core] at core'
    cases core'
  | refused refused forks =>
    rw [hrefused] at refused
    cases refused
  | pipeless lacks => exact absurd lacks (hpipe q)
  | pipe sides deeds told eq => exact ⟨_, _, sides⟩

section

variable (h : Chronicle m c D₀ n L J s) (hpipe : ∀ q, .lacksPipe ∉ J.of q)
  (hl : L.place l = some []) (hroot : .reaps l e ∈ J.of shell)
include h hpipe hl hroot

/-- Once the process of the whole tree is gone, every process of the line is. -/
theorem reaped_of_root (hq : L.place q = some b) :
    ∃ p e D, .forks q ∈ J.of p ∧ .reaps q e ∈ J.of p ∧ s.work q = some (.reaped e, D) := by
  induction b generalizing q with
  | nil =>
    obtain rfl := h.arranged.inj q l _ hq hl
    obtain ⟨p, ⟨rfl, -⟩ | ⟨d, a, -, ⟨⟩⟩, hforks⟩ := h.forked q [] hq
    obtain ⟨D, hw⟩ := h.reaps _ _ _ hroot
    exact ⟨_, e, D, hforks, hroot, hw⟩
  | cons d a ih =>
    obtain ⟨p, ⟨-, ⟨⟩⟩ | ⟨d', a', hp, hcons⟩, hforks⟩ := h.forked q _ hq
    obtain ⟨rfl, rfl⟩ := List.cons.inj hcons
    obtain ⟨-, e', D', -, -, hw⟩ := ih hp
    obtain ⟨l', r', el, er, sides, hdeeds⟩ := h.sides_of_forks hm hp hw hpipe hforks
    obtain ⟨e'', hreaps⟩ : ∃ e'', .reaps q e'' ∈ J.of p := by
      rw [hdeeds] at hforks ⊢
      have hside : q = l' ∨ q = r' := by simpa [forks_not_mem_performed] using hforks
      rcases hside with rfl | rfl
      · exact ⟨el, by simp⟩
      · exact ⟨er, by simp⟩
    obtain ⟨D'', hw''⟩ := h.reaps _ _ _ hreaps
    exact ⟨p, e'', D'', hforks, hreaps, hw''⟩

/-- A pipe at a place has processes on both sides, if no redirection of it was refused. -/
theorem sides_of_place (hq : L.place q = some a) (core : c.core? a = some (.pipe left right))
    (hrefused : J.refusedAt L a = false) : ∃ l r, Sides c L a l r := by
  obtain ⟨-, e', D, -, -, hw⟩ := h.reaped_of_root hm hpipe hl hroot hq
  exact h.sides_of_core hm hq hw hpipe core hrefused

/-- There is a process at a place only if there is a pipe above it none of whose redirections was
refused. -/
theorem core_of_place {d : Side} (hq : L.place q = some (d :: a)) :
    (∃ left right, c.core? a = some (.pipe left right)) ∧ J.refusedAt L a = false := by
  obtain ⟨p, ⟨-, ⟨⟩⟩ | ⟨d', a', hp, hcons⟩, hforks⟩ := h.forked q _ hq
  obtain ⟨rfl, rfl⟩ := List.cons.inj hcons
  obtain ⟨-, e', D', -, -, hw⟩ := h.reaped_of_root hm hpipe hl hroot hp
  obtain ⟨l', r', el, er, sides, hdeeds⟩ := h.sides_of_forks hm hp hw hpipe hforks
  refine ⟨sides.core, ?_⟩
  rw [Journal.refusedAt, Journal.doneAt_eq_of hp fun r hr => h.arranged.inj r p _ hr hp, hdeeds]
  simp [any_isRefusal_performed, Deed.isRefusal]

/-- A place has a process if no redirection above the place was refused. -/
theorem exists_place_of_core (hcore : c.core? a = some k)
    (hrefused : ∀ d b, d :: b <:+ a → J.refusedAt L b = false) : ∃ q, L.place q = some a := by
  induction a generalizing k with
  | nil => exact ⟨l, hl⟩
  | cons d b ih =>
    obtain ⟨left, right, core⟩ := Command.core?_of_cons hcore
    obtain ⟨q, hq⟩ := ih core fun d' b' hs => hrefused d' b' (hs.trans (List.suffix_cons _ _))
    obtain ⟨l', r', sides⟩ := h.sides_of_place hm hpipe hl hroot hq core
      (hrefused d b (List.suffix_refl _))
    cases d with
    | left => exact ⟨l', sides.left⟩
    | right => exact ⟨r', sides.right⟩

theorem exists_place_of_mem_places (hcore : c.core? a = some k.unwrap.1)
    (ha : ∃ q, L.place q = some a) (hb : b ∈ k.places (J.refusedAt L) a) :
    ∃ q, L.place q = some b := by
  induction k generalizing a with
  | exec argv => exact List.mem_singleton.mp hb ▸ ha
  | redirect target r ih => exact ih hcore ha hb
  | pipe left right ihl ihr =>
    rw [Command.places] at hb
    split at hb
    · exact List.mem_singleton.mp hb ▸ ha
    rename_i hrefused
    rw [Bool.not_eq_true] at hrefused
    obtain ⟨q, hq⟩ := ha
    obtain ⟨l', r', sides⟩ := h.sides_of_place hm hpipe hl hroot hq hcore hrefused
    have hside := Command.part?_cons_of_core? hcore
    rcases List.mem_cons.mp hb with rfl | hb
    · exact ⟨q, hq⟩
    rcases List.mem_append.mp hb with hb | hb
    · exact ihl (Command.core?_eq (hside .left)) ⟨l', sides.left⟩ hb
    · exact ihr (Command.core?_eq (hside .right)) ⟨r', sides.right⟩ hb

theorem mem_places_of_place (hcore : c.core? a = some k.unwrap.1) (hs : a <:+ b)
    (hq : L.place q = some b) : b ∈ k.places (J.refusedAt L) a := by
  induction k generalizing a with
  | redirect target r ih => exact ih hcore hs
  | exec argv =>
    rcases eq_or_exists_cons_suffix hs with rfl | ⟨d, hd⟩
    · exact List.mem_singleton_self _
    · obtain ⟨r, hr⟩ := h.arranged.exists_place_of_suffix hq hd
      obtain ⟨⟨left, right, core⟩, -⟩ := h.core_of_place hm hpipe hl hroot hr
      rw [hcore] at core
      cases core
  | pipe left right ihl ihr =>
    rcases eq_or_exists_cons_suffix hs with rfl | ⟨d, hd⟩
    · exact Command.mem_places_self _ _ _
    obtain ⟨r, hr⟩ := h.arranged.exists_place_of_suffix hq hd
    obtain ⟨-, hrefused⟩ := h.core_of_place hm hpipe hl hroot hr
    have hside := Command.part?_cons_of_core? hcore
    rw [Command.places, if_neg (by rw [hrefused]; exact Bool.false_ne_true)]
    refine List.mem_cons_of_mem _ (List.mem_append.mpr ?_)
    cases d with
    | left => exact .inl (ihl (Command.core?_eq (hside .left)) hd)
    | right => exact .inr (ihr (Command.core?_eq (hside .right)) hd)

/-- What the process of a leaf has done about its arguments, if no redirection there or above was
refused. -/
theorem loading_of_root {argv : List Bytes} (core : c.core? a = some (.exec argv))
    (hrefused : ∀ b, b <:+ a → J.refusedAt L b = false) :
    Loading argv ((J.doneAt L a).filter Deed.isLoading) := by
  obtain ⟨q, hq⟩ := h.exists_place_of_core hm hpipe hl hroot core
    fun d b hb => hrefused b ((List.suffix_cons d b).trans hb)
  have hdone : J.doneAt L a = J.of q :=
    Journal.doneAt_eq_of hq fun r hr => h.arranged.inj r q a hr hq
  have hnot := hrefused a (List.suffix_refl _)
  rw [Journal.refusedAt, hdone] at hnot
  rw [hdone]
  obtain ⟨-, e', D, -, -, hw⟩ := h.reaped_of_root hm hpipe hl hroot hq
  cases h.ended_of_reaped hm hq hw with
  | leaf core' loading forks refused =>
    rw [core] at core'
    obtain rfl := Command.exec.inj (Option.some.inj core')
    exact loading
  | refused refused forks =>
    rw [hnot] at refused
    cases refused
  | pipeless lacks => exact absurd lacks (hpipe q)
  | pipe sides deeds told eq =>
    obtain ⟨left, right, hcore⟩ := sides.core
    rw [core] at hcore
    cases hcore

/-- The processes of the line are as many as the places of the command. -/
theorem size_eq_length_places :
    s.processes.size = n + (c.places (J.refusedAt L) []).length := by
  have hcore : c.core? [] = some c.unwrap.1 := rfl
  -- the places of the processes of the line, in the order in which these were made
  have hplace : ∀ q, n ≤ q → q < s.processes.size → L.place q = some ((L.place q).getD []) := by
    intro q hn hq
    obtain ⟨a, ha⟩ := h.placed q hn hq
    rw [ha, Option.getD_some]
  have hmem : ∀ q, q ∈ List.range' n (s.processes.size - n) ↔ n ≤ q ∧ q < s.processes.size := by
    intro q
    have hsize := h.size
    rw [List.mem_range'_1]
    omega
  have hnodup : ((List.range' n (s.processes.size - n)).map fun q => (L.place q).getD []).Nodup := by
    refine List.Nodup.map_on (fun q hq r hr heq => ?_) List.nodup_range'
    obtain ⟨hqn, hqlt⟩ := (hmem q).mp hq
    obtain ⟨hrn, hrlt⟩ := (hmem r).mp hr
    exact h.arranged.inj q r _ (hplace q hqn hqlt) (heq ▸ hplace r hrn hrlt)
  have hperm : ((List.range' n (s.processes.size - n)).map fun q => (L.place q).getD []).Perm
      (c.places (J.refusedAt L) []) := by
    refine (List.perm_ext_iff_of_nodup hnodup (Command.nodup_places _ c [])).mpr fun b => ?_
    constructor
    · intro hb
      obtain ⟨q, hq, rfl⟩ := List.mem_map.mp hb
      obtain ⟨hqn, hqlt⟩ := (hmem q).mp hq
      exact h.mem_places_of_place hm hpipe hl hroot hcore List.nil_suffix (hplace q hqn hqlt)
    · intro hb
      obtain ⟨q, hq⟩ := h.exists_place_of_mem_places hm hpipe hl hroot hcore ⟨l, hl⟩ hb
      refine List.mem_map.mpr ⟨q, (hmem q).mpr ⟨h.first q b hq, (h.arranged.placed q b hq).2⟩, ?_⟩
      rw [hq, Option.getD_some]
  have hlength := hperm.length_eq
  rw [List.length_map, List.length_range'] at hlength
  have hsize := h.size
  omega

end

end

end Chronicle

/-! ## A line -/

theorem System.exists_work_of_result? {x : ExecResult} (h : s.result? = some x) :
    ∃ D, s.work shell = some (.executed x, D) := by
  unfold result? at h
  split at h
  · rename_i x' hx
    obtain rfl := Option.some.inj h
    obtain ⟨p, hp, ht⟩ := Option.map_eq_some_iff.mp hx
    exact ⟨p.descriptors, work_eq_some_iff.mpr ⟨p, hp, ht, rfl⟩⟩
  · cases h

/-- A line that was executed does nothing, or had a process for which the shell has waited. -/
theorem Chronicle.skipped_or_executed (h : Chronicle m c D₀ n L J s) {x : ExecResult}
    (hx : s.result? = some x) :
    c.isNoop = true ∧ J.of shell = [] ∧ x = .ok 0 ∨
    ∃ line e, c.isNoop = false ∧ L.place line = some [] ∧ .reaps line e ∈ J.of shell ∧
      x = e.status?.mapError fun err => .wait line err := by
  obtain ⟨D, hw⟩ := exists_work_of_result? hx
  obtain ⟨τ, hτ, hshell⟩ := h.atShell
  obtain ⟨rfl, -⟩ := work_inj hw hτ
  generalize J.of shell = es at hshell
  cases hshell with
  | skipped noop => exact .inl ⟨noop, rfl, rfl⟩
  | executed busy placed result => exact .inr ⟨_, _, busy, placed, by simp, result⟩

/-- Where the shell has made no process, there is none. -/
theorem Chronicle.size_eq_of_shell (h : Chronicle m c D₀ n L J s) (hshell : J.of shell = []) :
    s.processes.size = n := by
  by_contra hne
  obtain ⟨a, ha⟩ := h.placed n (Nat.le_refl n) (Nat.lt_of_le_of_ne h.size (Ne.symm hne))
  obtain ⟨r, hr⟩ := h.arranged.exists_place_of_suffix ha List.nil_suffix
  obtain ⟨p, ⟨rfl, -⟩ | ⟨d, a, -, ⟨⟩⟩, hforks⟩ := h.forked r [] hr
  rw [hshell] at hforks
  cases hforks

/-- A command that does nothing has one leaf, with no arguments. -/
theorem Command.core?_of_isNoop (hc : c.isNoop = true) (hk : c.core? a = some k) :
    k = .exec [] := by
  obtain rfl : c = .exec [] := by
    cases c with
    | exec argv => rw [List.isEmpty_iff.mp hc]
    | redirect target r => cases hc
    | pipe left right => cases hc
  induction a generalizing k with
  | nil => exact (Option.some.inj hk).symm
  | cons d b ih =>
    obtain ⟨left, right, hpipe⟩ := core?_of_cons hk
    cases ih hpipe

namespace System

/-- Every state to which steps lead has a journal, and in every one in which the shell has executed a
line, where no pipe was refused and the programs die of no signal but those from 1 to 31 : every process
made for the line has ended and was waited for by the process that made it ; at every leaf of the
command tree with arguments, and with no redirection refused there or above, the process has exactly once
become the program that is loaded for these arguments, or found that it cannot be loaded, unless an
argument holds a zero byte, with which no program is looked for ; and there is one process for the line,
and two more for every pipe that was come to. -/
theorem all_reaped (hs : s.Idle D₀)
    (hm : ∀ state signal, m.act state = .raise signal → 1 ≤ signal ∧ signal ≤ 31) :
    (∀ t, Reachable m (s.setShellTask (.execute c)) t →
      ∃ L J, Journaled m (s.setShellTask (.execute c)) t L J) ∧
    ∀ t L J, Journaled m (s.setShellTask (.execute c)) t L J →
      (∀ q, (q, Deed.lacksPipe) ∉ J) → t.result?.isSome →
      (∀ q, s.processes.size ≤ q → q < t.processes.size →
        ∃ p e, (p, .forks q) ∈ J ∧ (p, .reaps q e) ∈ J ∧ ∃ D, t.work q = some (.reaped e, D)) ∧
      (∀ a program arguments, c.core? a = some (.exec (program :: arguments)) →
        (∀ b, b <:+ a → J.refusedAt L b = false) →
          ∃ q d, L.place q = some a ∧ (J.doneAt L a).filter Deed.isLoading = [d] ∧
            HasTried m (s.setShellTask (.execute c)) t q program arguments d ∧
            (d = .balks ↔ (program :: arguments).any (·.contains 0) = true)) ∧
      t.processes.size = s.processes.size +
        if c.isNoop then 0 else 1 + 2 * c.pipesReached (J.refusedAt L) [] := by
  refine ⟨fun _ => exists_journaled, fun t L J hJ hpipe hx => ?_⟩
  obtain ⟨x, hx⟩ := Option.isSome_iff_exists.mp hx
  have h := chronicle_of_journaled hs hJ
  have hm' := isTold_of_standard hm
  have hpipe' := Journal.not_mem_of hpipe
  rcases h.skipped_or_executed hx with ⟨noop, hes, -⟩ | ⟨line, e, busy, placed, hroot, -⟩
  · have hsize := h.size_eq_of_shell hes
    refine ⟨fun q hn hq => ?_, fun a program arguments core _ => ?_, ?_⟩
    · rw [hsize] at hq
      exact absurd hq (Nat.not_lt_of_le hn)
    · cases Command.core?_of_isNoop noop core
    · rw [hsize, noop]
      rfl
  · refine ⟨fun q hn hq => ?_, fun a program arguments core hrefused => ?_, ?_⟩
    · obtain ⟨b, hb⟩ := h.placed q hn hq
      obtain ⟨p, e', D, hforks, hreaps, hw⟩ := h.reaped_of_root hm' hpipe' placed hroot hb
      exact ⟨p, e', Journal.mem_of_iff.mp hforks, Journal.mem_of_iff.mp hreaps, D, hw⟩
    · obtain ⟨d, hd, hzero⟩ :=
        (h.loading_of_root hm' hpipe' placed hroot core hrefused).eq_singleton
      have hmem := List.mem_filter.mp (hd ▸ List.mem_singleton_self d)
      obtain ⟨q, hq, tried⟩ := hasTried_of_mem_doneAt hs hJ core hmem.1 hmem.2
      exact ⟨q, d, hq, hd, tried, hzero⟩
    · rw [h.size_eq_length_places hm' hpipe' placed hroot, Command.length_places, busy]
      rfl

/-- The order in which the processes of `couple` take steps, the left side first. -/
def coupleSteps : List Pid := [0, 1, 1, 1, 1, 1, 2, 2, 2, 2, 3, 3, 3, 1, 1, 0]

/-- Both programs of a pipe have ended : the shell has made one process, and that has made two, of
which the left one has become its program once. -/
theorem all_reaped_couple : ∃ (t : System Unit) (L : Layout) (J : Journal),
    Journaled brief (bare.setShellTask (.execute couple)) t L J ∧ t.result? = some (.ok 0) ∧
      (∀ q, 1 ≤ q → q < 4 →
        ∃ p e, (p, .forks q) ∈ J ∧ (p, .reaps q e) ∈ J ∧ ∃ D, t.work q = some (.reaped e, D)) ∧
      (J.doneAt L [.left]).filter Deed.isLoading = [.execs [[0x61]]] ∧
      (∃ q, L.place q = some [.left] ∧
        HasTried brief (bare.setShellTask (.execute couple)) t q [0x61] [] (.execs [[0x61]])) ∧
      t.processes.size = 1 + (1 + 2 * 1) := by
  obtain ⟨t, ht, hsize, hresult, hnone, hdone⟩ : ∃ t,
      steps brief coupleSteps (bare.setShellTask (.execute couple)) = some t ∧
      t.processes.size = 4 ∧ t.result? = some (.ok 0) ∧
      (journal brief coupleSteps (bare.setShellTask (.execute couple)) ({}, [])).2.all
        (fun x => x.2 ≠ .lacksPipe) = true ∧
      (journal brief coupleSteps (bare.setShellTask (.execute couple)) ({}, [])).2.doneAt
        (journal brief coupleSteps (bare.setShellTask (.execute couple)) ({}, [])).1 [.left] =
          [.execs [[0x61]], .ends (.exited 0)] := ⟨_, rfl, rfl, rfl, rfl, rfl⟩
  have hJ := journaled_of_steps (.start (m := brief)) ht
  obtain ⟨hreaped, hloaded, hcount⟩ := (all_reaped idle_bare (by rintro state signal ⟨⟩)).2 t _ _ hJ
    (Journal.not_mem_of_all hnone) (by rw [hresult]; rfl)
  have hrefused : ∀ b, b <:+ [Side.left] →
      (journal brief coupleSteps (bare.setShellTask (.execute couple)) ({}, [])).2.refusedAt
        (journal brief coupleSteps (bare.setShellTask (.execute couple)) ({}, [])).1 b = false := by
    intro b hb
    rcases List.suffix_cons_iff.mp hb with rfl | hb
    · rfl
    · obtain rfl := List.suffix_nil.mp hb
      rfl
  obtain ⟨q, d, hq, hd, tried, -⟩ := hloaded [.left] [0x61] [] rfl hrefused
  rw [hdone] at hd
  obtain rfl := (List.cons.inj hd).1
  exact ⟨t, _, _, hJ, hresult, fun q hn hq => hreaped q hn (hsize ▸ hq), by rw [hdone]; rfl,
    ⟨q, hq, tried⟩, by rw [hcount]; rfl⟩

/-- The leaf of a line whose argument holds a zero byte does not become a program, nor fail to : nobody
looks for one. -/
theorem not_execs_zero : ∃ (t : System Unit) (L : Layout) (J : Journal),
    bare.Idle ⟨[none, none, some ⟨.file 2, false⟩]⟩ ∧
      Journaled brief (bare.setShellTask (.execute (.exec [[0x61, 0]]))) t L J ∧
      (∀ q, (q, Deed.lacksPipe) ∉ J) ∧ J.refusedAt L [] = false ∧ t.result? = some (.ok 127) ∧
      ∀ q argv e, (q, Deed.execs argv) ∉ J ∧ (q, Deed.lacks e) ∉ J := by
  have hrun : (steps brief [0, 1, 1, 1, 1, 1, 0]
      (bare.setShellTask (.execute (.exec [[0x61, 0]])))).bind result? = some (.ok 127) := by
    decide +kernel
  obtain ⟨t, ht, hresult⟩ := Option.bind_eq_some_iff.mp hrun
  have hdeeds : (journal brief [0, 1, 1, 1, 1, 1, 0]
      (bare.setShellTask (.execute (.exec [[0x61, 0]]))) ({}, [])).2 = [(0, .forks 1), (1, .balks),
        (1, .prints (Utf8.ofString "minish: ")), (1, .prints [0x61, 0]),
        (1, .prints (Utf8.ofString ": argument contains a NUL byte\n")),
        (0, .reaps 1 (.exited 127))] := by decide +kernel
  refine ⟨t, _, _, idle_bare, journaled_of_steps (.start (m := brief)) ht,
    Journal.not_mem_of_all (by rw [hdeeds]; rfl), by decide +kernel, hresult, fun q argv e => ?_⟩
  rw [hdeeds]
  simp

end System

end LineShell
