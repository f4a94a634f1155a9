import LineShell.Errno

/-!
# Descriptor tables

A process knows its open files by small numbers. `Descriptors` maps each number to a
handle. New handles get the lowest free number (`Descriptors.add`), and
`Descriptors.install` moves a handle to a number that somebody else has chosen.
-/

namespace LineShell

/-- What a descriptor stands for: a file opened before, by its number, or an end of a pipe. -/
inductive Stream where
  | file (opened : Nat)
  | pipeReader (pipe : Nat)
  | pipeWriter (pipe : Nat)
deriving DecidableEq, Repr

/-- An entry of a descriptor table. -/
structure Handle where
  stream : Stream
  /-- The entry is gone once the process has become a program. -/
  closeOnExec : Bool := false
deriving DecidableEq, Repr

/-- The open descriptors of a process, by number. -/
structure Descriptors where
  slots : List (Option Handle) := []
deriving DecidableEq, Repr

namespace Descriptors

/-- The handle of a descriptor. -/
def get? (t : Descriptors) (n : Nat) : Option Handle :=
  t.slots[n]?.join

/-- Put a handle under a number. -/
def set (t : Descriptors) (n : Nat) (h : Handle) : Descriptors :=
  if n < t.slots.length then ⟨t.slots.set n (some h)⟩
  else ⟨t.slots ++ List.replicate (n - t.slots.length) none ++ [some h]⟩

/-- Close a descriptor. -/
def close (t : Descriptors) (n : Nat) : Descriptors :=
  ⟨t.slots.set n none⟩

/-- The lowest number that is free. -/
def lowestFree (t : Descriptors) : Nat :=
  t.slots.findIdx Option.isNone

/-- Put a handle under the lowest free number, if that is below `limit`. -/
def add (limit : Nat) (h : Handle) (t : Descriptors) : Except Errno (Nat × Descriptors) :=
  if t.lowestFree < limit then .ok (t.lowestFree, t.set t.lowestFree h)
  else .error .tooManyOpen

/-- Put the ends of a pipe under the lowest free numbers: the reading end first. -/
def addPipe (limit : Nat) (pipe : Nat) (t : Descriptors) :
    Except Errno (Nat × Nat × Descriptors) := do
  let (reading, t) ← t.add limit { stream := .pipeReader pipe }
  let (writing, t) ← t.add limit { stream := .pipeWriter pipe }
  return (reading, writing, t)

/-- Move the handle under `source` to the number `target`, in the place of whatever is
there, so that a program keeps it. A number that no descriptor can have is refused. -/
def install (limit : Nat) (source : Nat) (target : Int) (t : Descriptors) :
    Except Errno Descriptors :=
  match t.get? source with
  | none => .error .badDescriptor
  | some h =>
    let kept : Handle := { h with closeOnExec := false }
    if target = source then .ok (t.set source kept)
    else if 0 ≤ target ∧ target < limit then .ok ((t.set target.toNat kept).close source)
    else .error .badDescriptor

/-- The descriptors that a program keeps. -/
def acrossExec (t : Descriptors) : Descriptors :=
  ⟨t.slots.map fun h => h.filter fun h => !h.closeOnExec⟩

/-- Some descriptor stands for a stream. -/
def holds (t : Descriptors) (s : Stream) : Bool :=
  t.slots.any fun h => h.any fun h => h.stream = s

/-! ## What each operation does to the table -/

@[simp]
theorem get?_empty (n : Nat) : get? ⟨[]⟩ n = none := rfl

theorem get?_set (t : Descriptors) (n m : Nat) (h : Handle) :
    (t.set n h).get? m = if m = n then some h else t.get? m := by
  unfold set
  split
  · rename_i hn
    simp only [get?, List.getElem?_set]
    by_cases hm : n = m
    · subst hm; simp [hn]
    · simp [hm, Ne.symm hm]
  · rename_i hn
    have hn : t.slots.length ≤ n := Nat.le_of_not_lt hn
    simp only [get?]
    by_cases hm : m = n
    · subst hm
      rw [List.getElem?_append_right (by simp; omega)]
      simp [hn]
    · rw [if_neg hm]
      by_cases hlt : m < t.slots.length
      · rw [List.append_assoc, List.getElem?_append_left hlt]
      · by_cases hmn : m < n
        · rw [List.getElem?_append_left (by simp; omega),
            List.getElem?_append_right (by omega), List.getElem?_replicate]
          rw [if_pos (by omega), List.getElem?_eq_none (by omega)]
          rfl
        · rw [List.getElem?_eq_none (by simp; omega), List.getElem?_eq_none (by omega)]

theorem get?_close (t : Descriptors) (n m : Nat) :
    (t.close n).get? m = if m = n then none else t.get? m := by
  simp only [close, get?, List.getElem?_set]
  by_cases hm : n = m
  · subst hm
    by_cases hn : n < t.slots.length <;> simp [hn]
  · simp [hm, Ne.symm hm]

theorem get?_acrossExec (t : Descriptors) (n : Nat) :
    t.acrossExec.get? n = (t.get? n).filter fun h => !h.closeOnExec := by
  simp only [acrossExec, get?, List.getElem?_map]
  cases t.slots[n]? with
  | none => rfl
  | some h => cases h <;> rfl

/-- The lowest free number is free. -/
theorem get?_lowestFree (t : Descriptors) : t.get? t.lowestFree = none := by
  unfold get? lowestFree
  by_cases h : t.slots.findIdx Option.isNone < t.slots.length
  · rw [List.getElem?_eq_getElem h]
    have := List.findIdx_getElem (w := h)
    simpa [Option.isNone_iff_eq_none] using this
  · rw [List.getElem?_eq_none (by omega)]
    rfl

end Descriptors

end LineShell
