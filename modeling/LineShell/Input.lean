import LineShell.Text.Utf8

/-!
# Reading lines

`readLine` takes one record off the input: the bytes up to a line feed, or up to the
end of the input. What it returns is the text of the record's first `lineMax - 2`
bytes with a line feed behind. The rest of a longer record is dropped.
-/

namespace LineShell

/-- The byte that ends a record. -/
def lineFeed : UInt8 := 0x0A

/-- The first record of the input, without its line feed, and the input behind it. -/
def takeRecord (input : Bytes) : Bytes × Bytes :=
  (Text.cutAt lineFeed input).getD (input, [])

/-- The line made of a record. -/
def lineOfRecord (lineMax : Nat) (record : Bytes) : Text :=
  Utf8.decodeLossy (record.take (lineMax - 2)) ++ ['\n']

/-- The next line and the input behind it, none at the end of the input. -/
def readLine (lineMax : Nat) (input : Bytes) : Option (Text × Bytes) :=
  if input.isEmpty then none
  else some (lineOfRecord lineMax (takeRecord input).1, (takeRecord input).2)

theorem length_takeRecord_lt {input : Bytes} (h : input ≠ []) :
    (takeRecord input).2.length < input.length := by
  unfold takeRecord
  cases hc : Text.cutAt lineFeed input with
  | none => exact List.length_pos_iff.mpr h
  | some p => exact Text.length_lt_of_cutAt hc

theorem length_lt_of_readLine {lineMax : Nat} {input rest : Bytes} {line : Text}
    (h : readLine lineMax input = some (line, rest)) : rest.length < input.length := by
  unfold readLine at h
  split at h
  · cases h
  · rename_i hn
    cases h
    exact length_takeRecord_lt (by simpa using hn)

/-- Every line of the input. -/
def readLines (lineMax : Nat) (input : Bytes) : List Text :=
  match _h : readLine lineMax input with
  | none => []
  | some (line, rest) => line :: readLines lineMax rest
termination_by input.length
decreasing_by exact length_lt_of_readLine (by assumption)

theorem readLines_of_none {lineMax : Nat} {input : Bytes} (h : readLine lineMax input = none) :
    readLines lineMax input = [] := by
  rw [readLines]
  split
  · rfl
  · rename_i h'
    rw [h] at h'
    cases h'

theorem readLines_of_some {lineMax : Nat} {input rest : Bytes} {line : Text}
    (h : readLine lineMax input = some (line, rest)) :
    readLines lineMax input = line :: readLines lineMax rest := by
  rw [readLines]
  split
  · rename_i h'
    rw [h] at h'
    cases h'
  · rename_i h'
    rw [h] at h'
    cases h'
    rfl

end LineShell
