import LineShell.Text.Decimal
import LineShell.Text.Utf8

/-!
# History

A `History` keeps the last lines that were entered, each with its number, counted from
one. It has a fixed number of slots: once all are in use, a new entry takes the place
of the oldest (`History.append`). `History.entries` lists what is kept, the oldest
first, and `History.pieces` is the listing that the shell prints.
-/

namespace LineShell

/-- A line that was entered, and its number. -/
structure History.Entry where
  number : Nat
  text : Text
deriving DecidableEq, Repr

/-- The last lines entered. `count` lines were entered in all, and line number `n` is
in slot `(n - 1) % capacity`. -/
structure History where
  capacity : Nat
  slots : Array History.Entry
  count : Nat
deriving DecidableEq, Repr

namespace History

/-- The number of slots when nothing else is said. -/
def defaultCapacity : Nat := 50

/-- A history without entries. It has at least one slot. -/
def empty (capacity : Nat) : History := ⟨max capacity 1, #[], 0⟩

/-- The bytes one slot takes. -/
def slotSize : Nat := 32

/-- The most bytes that can be set aside at once. -/
def storageLimit : Nat := Nat.pow 2 63 - 1

/-- A history without entries, if its slots can be set aside. -/
def reserve? (capacity : Nat) : Option History :=
  if max capacity 1 * slotSize ≤ storageLimit then some (empty capacity) else none

/-- The line ends that an entry is kept without. -/
def isLineEnd (c : Char) : Bool := c = '\n' || c = '\r'

/-- Enter a line, without the line ends behind it. -/
def append (line : Text) (h : History) : History :=
  let entry : Entry := ⟨h.count + 1, Text.dropEndWhile isLineEnd line⟩
  { h with
    slots := if h.slots.size < h.capacity then h.slots.push entry
      else h.slots.setIfInBounds (h.count % h.capacity) entry
    count := h.count + 1 }

/-- The slot of the oldest entry. -/
def oldest (h : History) : Nat :=
  if h.slots.size < h.capacity then 0 else h.count % h.capacity

/-- The entries, the oldest first. -/
def entries (h : History) : List Entry :=
  h.slots.toList.drop h.oldest ++ h.slots.toList.take h.oldest

/-- The entry made last. -/
def last? (h : History) : Option Entry :=
  h.entries.getLast?

/-- The number of entries kept. -/
def size (h : History) : Nat := h.slots.size

/-- Nothing is kept. -/
def isEmpty (h : History) : Bool := h.slots.isEmpty

/-- What is written for an entry: its number, a blank, its text and a line feed. -/
def Entry.pieces (e : Entry) : List Bytes :=
  [Utf8.encode (Decimal.ofNat e.number), Utf8.ofString " ", Utf8.encode e.text, Utf8.ofString "\n"]

/-- The listing of a history, in the pieces in which it is written. -/
def pieces (h : History) : List Bytes :=
  h.entries.flatMap Entry.pieces

/-- The listing of a history. -/
def listing (h : History) : Bytes := h.pieces.flatten

@[simp]
theorem count_append (line : Text) (h : History) : (h.append line).count = h.count + 1 := rfl

@[simp]
theorem capacity_append (line : Text) (h : History) : (h.append line).capacity = h.capacity := rfl

theorem one_le_capacity_empty (capacity : Nat) : 1 ≤ (empty capacity).capacity :=
  Nat.le_max_right _ _

/-- The entries kept are as many as the slots in use. -/
theorem length_entries (h : History) : h.entries.length = h.size := by
  simp only [entries, List.length_append, List.length_drop, List.length_take, Array.length_toList,
    size]
  omega

end History

end LineShell
