import LineShell.Proofs.Move
import LineShell.Proofs.Wrapping

/-!
# The wiring of a command tree

An `Address` is a place in a command tree, by the sides taken at the pipes above it. A
`Layout` says which process is at which place, which pipe was made there, and what the
redirections there have opened so far. `Layout.entry` is the table with which the process of
a place begins, and `Layout.wiring` the table after the redirections opened so far.

Both depend on the places above alone (`Layout.wiring_of_agrees`), and a program keeps of
them what it keeps of the first table (`Layout.inherited_wiring`).
-/

namespace LineShell

/-- A side of a pipe. -/
inductive Side where
  | left
  | right
deriving DecidableEq, Repr

namespace Side

/-- The descriptor that stands for the pipe on a side. -/
def target : Side → Nat
  | .left => 1
  | .right => 0

/-- The end of a pipe that a side is for. -/
def stream : Side → Nat → Stream
  | .left => .pipeWriter
  | .right => .pipeReader

/-- The command on a side. -/
def command : Side → Command → Command → Command
  | .left, l, _ => l
  | .right, _, r => r

end Side

/-- A place in a command tree : the sides taken at the pipes above it, the last one first. -/
abbrev Address := List Side

namespace Command

/-- The command at a place. -/
def part? (c : Command) : Address → Option Command
  | [] => some c
  | d :: a =>
    (c.part? a).bind fun k =>
      match k.unwrap.1 with
      | .pipe left right => some (d.command left right)
      | _ => none

/-- The redirections at a place, the innermost first. -/
def redirectionsAt (c : Command) (a : Address) : List Redirection :=
  ((c.part? a).map fun k => k.unwrap.2).getD []

variable {c k left right : Command} {a : Address} {d : Side}

theorem redirectionsAt_eq (h : c.part? a = some k) : c.redirectionsAt a = k.unwrap.2 := by
  rw [redirectionsAt, h, Option.map_some, Option.getD_some]

theorem part?_cons (h : c.part? a = some k) (hk : k.unwrap.1 = .pipe left right) :
    c.part? (d :: a) = some (d.command left right) := by
  rw [part?, h, Option.bind_some, hk]

/-- There are fewer pipes on a side of a pipe. -/
theorem pipeCount_command_lt (hk : k.unwrap.1 = .pipe left right) (d : Side) :
    (d.command left right).pipeCount < k.pipeCount := by
  rw [← pipeCount_unwrap k, hk, pipeCount]
  cases d <;> simp only [Side.command] <;> omega

end Command

namespace Table

/-- What a program keeps of a table. -/
def inherited (T : Table) : Table := Option.filter (fun h => !h.closeOnExec) ∘ T

theorem inherited_update (T : Table) (n : Nat) (h : Option Handle) :
    inherited (Function.update T n h) =
      Function.update (inherited T) n (h.filter fun h => !h.closeOnExec) :=
  Function.comp_update _ _ _ _

theorem inherited_get? (t : Descriptors) : t.acrossExec.get? = inherited t.get? := by
  ext1 n
  exact t.get?_acrossExec n

end Table

/-- A table with the files of redirections in place, the first of them first. -/
def redirected (rs : List (Redirection × Stream)) (T : Table) : Table :=
  rs.foldl (fun T r => Function.update T r.1.descriptor.toNat (some ⟨r.2, false⟩)) T

theorem redirected_concat (rs : List (Redirection × Stream)) (r : Redirection) (o : Stream)
    (T : Table) : redirected (rs ++ [(r, o)]) T =
      Function.update (redirected rs T) r.descriptor.toNat (some ⟨o, false⟩) := by
  rw [redirected, List.foldl_append]
  rfl

/-- What is known of the processes of a command tree. -/
structure Layout where
  /-- The place of a process. -/
  place : Pid → Option Address := fun _ => none
  /-- The pipe made at a place. -/
  pipe : Address → Option Nat := fun _ => none
  /-- What the redirections at a place have opened so far, the first of them first. -/
  opened : Address → List Stream := fun _ => []

namespace Layout

/-- The table with which the process of a place begins : for the whole tree the table `T`, and
for a side of a pipe the table of the place above, with the end of that pipe. -/
def entry (L : Layout) (c : Command) (T : Table) : Address → Table
  | [] => T
  | d :: a =>
    Function.update (redirected ((c.redirectionsAt a).zip (L.opened a)) (L.entry c T a)) d.target
      ((L.pipe a).map fun p => ⟨d.stream p, false⟩)

/-- The table of a place after the redirections opened so far. -/
def wiring (L : Layout) (c : Command) (T : Table) (a : Address) : Table :=
  redirected ((c.redirectionsAt a).zip (L.opened a)) (L.entry c T a)

/-- A process comes to a place. -/
def enter (L : Layout) (q : Pid) (a : Address) : Layout :=
  { L with place := Function.update L.place q (some a) }

/-- A pipe is made at a place. -/
def make (L : Layout) (a : Address) (p : Nat) : Layout :=
  { L with pipe := Function.update L.pipe a (some p) }

/-- The next redirection at a place is opened. -/
def take (L : Layout) (a : Address) (o : Stream) : Layout :=
  { L with opened := Function.update L.opened a (L.opened a ++ [o]) }

/-- No process is below a place. -/
def Childless (L : Layout) (a : Address) : Prop := ∀ q d, L.place q ≠ some (d :: a)

variable {L L' : Layout} {c k : Command} {T : Table} {a b : Address} {q : Pid}

theorem entry_nil : L.entry c T [] = T := rfl

theorem entry_cons (d : Side) (a : Address) : L.entry c T (d :: a) =
    Function.update (L.wiring c T a) d.target ((L.pipe a).map fun p => ⟨d.stream p, false⟩) := rfl

/-- Only redirections that have been opened are in the wiring. -/
theorem wiring_eq {inner : Command} {done rest : List Redirection} (hk : c.part? a = some k)
    (hr : k.unwrap = (inner, done ++ rest)) (hl : done.length = (L.opened a).length) :
    L.wiring c T a = redirected (done.zip (L.opened a)) (L.entry c T a) := by
  have hz : (done ++ rest).zip (L.opened a ++ []) = done.zip (L.opened a) ++ rest.zip [] :=
    List.zip_append hl
  rw [List.append_nil, List.zip_nil_right, List.append_nil] at hz
  rw [wiring, Command.redirectionsAt_eq hk, hr, hz]

/-- The wiring of a place at which nothing has been opened yet. -/
theorem wiring_of_opened_eq_nil (h : L.opened a = []) : L.wiring c T a = L.entry c T a := by
  rw [wiring, h, List.zip_nil_right]
  rfl

theorem place_enter (L : Layout) (q : Pid) (a : Address) :
    (L.enter q a).place = Function.update L.place q (some a) := rfl

/-! ## The places on which the wiring depends -/

/-- Two layouts agree about a place : about what is above it, and about what is there. -/
structure Agrees (L L' : Layout) (b : Address) : Prop where
  above : ∀ d a, d :: a <:+ b → L'.pipe a = L.pipe a ∧ L'.opened a = L.opened a
  pipe : L'.pipe b = L.pipe b
  opened : L'.opened b = L.opened b
  below : ∀ q d, L'.place q = some (d :: b) ↔ L.place q = some (d :: b)

theorem entry_of_above (b : Address)
    (h : ∀ d a, d :: a <:+ b → L'.pipe a = L.pipe a ∧ L'.opened a = L.opened a) :
    L'.entry c T b = L.entry c T b := by
  induction b with
  | nil => rfl
  | cons d a ih =>
    obtain ⟨hpipe, hopened⟩ := h d a (List.suffix_refl _)
    rw [entry_cons, entry_cons, wiring, wiring, hpipe, hopened,
      ih fun d' a' hs => h d' a' (hs.trans (List.suffix_cons d a))]

theorem entry_of_agrees (h : L.Agrees L' b) : L'.entry c T b = L.entry c T b :=
  entry_of_above b h.above

theorem wiring_of_agrees (h : L.Agrees L' b) : L'.wiring c T b = L.wiring c T b := by
  rw [wiring, wiring, h.opened, entry_of_agrees h]

theorem childless_of_agrees (h : L.Agrees L' b) (hc : L.Childless b) : L'.Childless b := by
  intro q d hq
  exact hc q d ((h.below q d).mp hq)

theorem Agrees.refl (L : Layout) (b : Address) : L.Agrees L b :=
  ⟨fun _ _ _ => ⟨rfl, rfl⟩, rfl, rfl, fun _ _ => .rfl⟩

/-- A process that comes to another place changes nothing but what is below its own. -/
theorem agrees_enter (hq : L.place q = none) (h : ∀ d, a ≠ d :: b) : L.Agrees (L.enter q a) b := by
  refine ⟨fun _ _ _ => ⟨rfl, rfl⟩, rfl, rfl, fun r d => ?_⟩
  rcases eq_or_ne r q with rfl | hne
  · rw [place_enter, Function.update_self, hq]
    constructor
    · intro heq
      exact absurd (Option.some.inj heq) (h d)
    · intro heq
      cases heq
  · rw [place_enter, Function.update_of_ne hne]

theorem agrees_make {p : Nat} (hb : b ≠ a) (h : ∀ d, ¬d :: a <:+ b) : L.Agrees (L.make a p) b := by
  refine ⟨fun d a' hs => ⟨?_, rfl⟩, Function.update_of_ne hb _ _, rfl, fun _ _ => .rfl⟩
  refine Function.update_of_ne ?_ _ _
  rintro rfl
  exact h d hs

theorem agrees_take {o : Stream} (hb : b ≠ a) (h : ∀ d, ¬d :: a <:+ b) :
    L.Agrees (L.take a o) b := by
  refine ⟨fun d a' hs => ⟨rfl, ?_⟩, rfl, Function.update_of_ne hb _ _, fun _ _ => .rfl⟩
  refine Function.update_of_ne ?_ _ _
  rintro rfl
  exact h d hs

/-! ## What a program keeps -/

theorem inherited_redirected (rs : List (Redirection × Stream)) (T : Table) :
    Table.inherited (redirected rs T) = redirected rs (Table.inherited T) := by
  induction rs generalizing T with
  | nil => rfl
  | cons r rs ih =>
    rw [redirected, List.foldl_cons, ← redirected, ih, Table.inherited_update]
    rfl

theorem inherited_entry (L : Layout) (c : Command) (T : Table) (b : Address) :
    Table.inherited (L.entry c T b) = L.entry c (Table.inherited T) b := by
  induction b with
  | nil => rfl
  | cons d a ih =>
    rw [entry_cons, entry_cons, Table.inherited_update, wiring, inherited_redirected, ih, wiring]
    cases L.pipe a <;> rfl

/-- What a program keeps of the wiring is the wiring of what it keeps of the first table. -/
theorem inherited_wiring (L : Layout) (c : Command) (T : Table) (a : Address) :
    Table.inherited (L.wiring c T a) = L.wiring c (Table.inherited T) a := by
  rw [wiring, inherited_redirected, inherited_entry, wiring]

end Layout

end LineShell
