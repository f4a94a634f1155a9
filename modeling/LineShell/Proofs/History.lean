import LineShell.History
import LineShell.Proofs.Field

/-!
# A history is the end of a list

`History.Holds lines h` : `h` has been made by entering `lines`. Line number `k + 1` is then
in slot `k % capacity`, for the last `capacity` lines (`Holds.append` keeps it, also when
the ring turns). `Holds.entries_eq` : the entries are the last `capacity` of the numbered
lines, in order.

`entries_enterAll` : so a history is known by the list of the lines entered, from its beginning
on, and no place is used that is not one of its slots.
-/

namespace LineShell.History

/-- A line as it is kept. -/
def kept (line : Text) : Text := Text.dropEndWhile isLineEnd line

/-- Lines as they are kept, with their numbers. -/
def numbered (lines : List Text) : List Entry :=
  lines.mapIdx fun k line => ⟨k + 1, kept line⟩

/-- The last `capacity` of the numbered lines. -/
def lastOf (capacity : Nat) (lines : List Text) : List Entry :=
  (numbered lines).drop (lines.length - capacity)

/-- The history of the lines `lines`. -/
structure Holds (lines : List Text) (h : History) : Prop where
  one_le_capacity : 1 ≤ h.capacity
  count : h.count = lines.length
  size : h.slots.size = min lines.length h.capacity
  /-- A line that is kept is in the slot of its number. -/
  slot : ∀ k, lines.length - h.capacity ≤ k → ∀ line, lines[k]? = some line →
    h.slots[k % h.capacity]? = some ⟨k + 1, kept line⟩

@[simp]
theorem length_numbered (lines : List Text) : (numbered lines).length = lines.length := by
  simp [numbered]

theorem getElem?_numbered (lines : List Text) (k : Nat) :
    (numbered lines)[k]? = lines[k]?.map fun line => ⟨k + 1, kept line⟩ := by
  simp [numbered]

theorem holds_empty (capacity : Nat) : (empty capacity).Holds [] where
  one_le_capacity := one_le_capacity_empty capacity
  count := rfl
  size := by simp [empty]
  slot k _ line h := by simp at h

/-- Two numbers less than `n` apart have different remainders. -/
theorem mod_ne_of_lt {k m n : Nat} (hkm : k < m) (hmn : m < k + n) : k % n ≠ m % n := by
  intro h
  have hzero : (m - k) % n = 0 := Nat.sub_mod_eq_zero_of_mod_eq h.symm
  rw [Nat.mod_eq_of_lt (by omega)] at hzero
  omega

theorem Holds.append {lines : List Text} {h : History} (hh : h.Holds lines) (line : Text) :
    (h.append line).Holds (lines ++ [line]) := by
  have hcap := hh.one_le_capacity
  have hsize := hh.size
  refine ⟨hcap, by simp [hh.count], ?_, ?_⟩
  · simp only [History.append]
    split
    · simp only [Array.size_push, List.length_append, List.length_singleton]
      omega
    · simp only [Array.size_setIfInBounds, List.length_append, List.length_singleton]
      omega
  · intro k hk line' hline
    simp only [capacity_append, List.length_append, List.length_singleton] at hk ⊢
    have hlt : k < lines.length + 1 := by
      simpa using (List.getElem?_eq_some_iff.mp hline).1
    have hmod : k % h.capacity < h.capacity := Nat.mod_lt _ hcap
    rcases Nat.lt_or_ge k lines.length with hkl | hkl
    · -- an older line keeps its slot: the new one goes elsewhere
      have hold := hh.slot k (by omega) line' (by simpa [List.getElem?_append_left hkl] using hline)
      have hne : k % h.capacity ≠ lines.length % h.capacity := mod_ne_of_lt hkl (by omega)
      have hbound := (Array.getElem?_eq_some_iff.mp hold).1
      simp only [History.append, hh.count]
      split
      · rwa [Array.getElem?_push_lt hbound, ← Array.getElem?_eq_getElem hbound]
      · rwa [Array.getElem?_setIfInBounds_ne (Ne.symm hne)]
    · obtain rfl : k = lines.length := by omega
      obtain rfl : line = line' := by simpa using hline
      simp only [History.append, hh.count]
      split
      · rename_i hroom
        have hk : lines.length % h.capacity = h.slots.size := by
          rw [Nat.mod_eq_of_lt (by omega)]
          omega
        rw [hk, Array.getElem?_push_size]
        rfl
      · rw [Array.getElem?_setIfInBounds_self_of_lt (by omega)]
        rfl

/-- Where the entries are read from : the slots from the oldest on, then those before it. -/
theorem getElem?_entries (h : History) (hle : h.oldest ≤ h.slots.size) (j : Nat) :
    h.entries[j]? =
      if j < h.slots.size - h.oldest then h.slots[h.oldest + j]?
      else if j < h.slots.size then h.slots[j - (h.slots.size - h.oldest)]? else none := by
  rw [entries, List.getElem?_append, List.length_drop, Array.length_toList]
  split
  · rw [List.getElem?_drop, Array.getElem?_toList]
  · rw [List.getElem?_take, Array.getElem?_toList]
    split <;> split <;> first | rfl | omega

/-- The entries of a history are the last lines entered. -/
theorem Holds.entries_eq {lines : List Text} {h : History} (hh : h.Holds lines) :
    h.entries = lastOf h.capacity lines := by
  have hcap := hh.one_le_capacity
  have hsize := hh.size
  have hmod : lines.length % h.capacity < h.capacity := Nat.mod_lt _ hcap
  have hle : h.oldest ≤ h.slots.size := by
    rw [oldest, hh.count]
    split <;> omega
  refine List.ext_getElem? fun j => ?_
  rw [lastOf, List.getElem?_drop, getElem?_numbered, getElem?_entries h hle]
  rcases Nat.lt_or_ge j h.slots.size with hj | hj
  · obtain ⟨line, hline⟩ : ∃ line, lines[lines.length - h.capacity + j]? = some line :=
      ⟨_, List.getElem?_eq_getElem (by omega)⟩
    rw [hline, Option.map_some, ← hh.slot _ (Nat.le_add_right _ _) line hline]
    -- the slot of line `n - capacity + j` is `j` places behind the oldest, around the ring
    rcases Nat.lt_or_ge lines.length h.capacity with hn | hn
    · have ho : h.oldest = 0 := by rw [oldest, if_pos (by omega)]
      rw [ho, if_pos (by omega), Nat.zero_add, Nat.mod_eq_of_lt (by omega)]
      congr 1
      omega
    · have ho : h.oldest = lines.length % h.capacity := by rw [oldest, if_neg (by omega), hh.count]
      have hk : (lines.length - h.capacity + j) % h.capacity = (h.oldest + j) % h.capacity := by
        rw [ho, Nat.mod_add_mod, ← Nat.add_mod_right (lines.length - h.capacity + j)]
        congr 1
        omega
      rw [hk]
      split
      · rw [Nat.mod_eq_of_lt (by omega)]
      · rw [Nat.mod_eq_sub_mod (by omega), Nat.mod_eq_of_lt (by omega)]
        congr 1
        omega
  · have hnone : lines[lines.length - h.capacity + j]? = none :=
      List.getElem?_eq_none (by omega)
    rw [if_neg (by omega), if_neg (by omega), hnone, Option.map_none]

/-- The entry made last is the last of the entries. -/
theorem getLast?_lastOf (capacity : Nat) (hcap : 1 ≤ capacity) (lines : List Text) (line : Text) :
    (lastOf capacity (lines ++ [line])).getLast? = some ⟨lines.length + 1, kept line⟩ := by
  rw [lastOf, List.getLast?_drop, if_neg (by simp; omega), numbered, List.mapIdx_concat]
  simp

theorem Holds.last?_append {lines : List Text} {h : History} (hh : h.Holds lines) (line : Text) :
    (h.append line).last? = some ⟨lines.length + 1, kept line⟩ := by
  rw [last?, (hh.append line).entries_eq, getLast?_lastOf _ (hh.append line).one_le_capacity]

/-! ## A history from its beginning on -/

/-- The history after the lines `lines`, entered one after the other. -/
def enterAll (lines : List Text) (h : History) : History :=
  lines.foldl (fun h line => h.append line) h

theorem eq_empty_of_reserve? {capacity : Nat} {h : History} (hr : reserve? capacity = some h) :
    h = empty capacity := by
  unfold reserve? at hr
  split at hr
  · exact (Option.some.inj hr).symm
  · cases hr

theorem Holds.enterAll {lines : List Text} {h : History} (hh : h.Holds lines) (more : List Text) :
    (h.enterAll more).Holds (lines ++ more) := by
  induction more generalizing lines h with
  | nil => simpa [History.enterAll] using hh
  | cons line more ih => simpa [History.enterAll] using ih (hh.append line)

@[simp]
theorem capacity_enterAll (lines : List Text) (h : History) :
    (h.enterAll lines).capacity = h.capacity := by
  induction lines generalizing h with
  | nil => rfl
  | cons line lines ih => exact ih (h.append line)

/-- A line is kept without the line ends behind it, and with all before them. -/
theorem kept_spec (line : Text) : ∃ ends, line = kept line ++ ends ∧
    (∀ c ∈ ends, isLineEnd c = true) ∧ ∀ c ∈ (kept line).getLast?, isLineEnd c = false := by
  refine ⟨(line.reverse.takeWhile isLineEnd).reverse, ?_, ?_, ?_⟩
  · exact (Text.dropEndWhile_append_eq isLineEnd line).symm
  · intro c hc
    exact List.all_eq_true.mp List.all_takeWhile c (List.mem_reverse.mp hc)
  · exact Text.getLast?_dropEndWhile isLineEnd line

theorem isLineEnd_iff {c : Char} : isLineEnd c = true ↔ c = '\n' ∨ c = '\r' := by
  simp [isLineEnd]

/-- What is kept of a line is a part of it. -/
theorem mem_of_mem_kept {x : Char} {line : Text} (hx : x ∈ kept line) : x ∈ line := by
  rw [← Text.dropEndWhile_append_eq isLineEnd line]
  exact List.mem_append_left _ hx

theorem kept_append (line : Text) {ends : Text} (h : ∀ c ∈ ends, isLineEnd c = true) :
    kept (line ++ ends) = kept line :=
  Text.dropEndWhile_append line h

theorem kept_kept (line : Text) : kept (kept line) = kept line :=
  Text.dropEndWhile_eq_self (Text.getLast?_dropEndWhile isLineEnd line)

/-- Every place that a history with lines uses is one of its slots : the slot that the next line
takes once all are in use, and the slot of the oldest entry, up to which and from which the
entries are read. -/
theorem Holds.slots_in_range {lines : List Text} {h : History} (hh : h.Holds lines) :
    0 < h.capacity ∧ (h.capacity ≤ h.slots.size → h.count % h.capacity < h.slots.size) ∧
      h.oldest ≤ h.slots.size := by
  have hcap := hh.one_le_capacity
  have hmod : h.count % h.capacity < h.capacity := Nat.mod_lt _ hcap
  refine ⟨hcap, fun hfull => by omega, ?_⟩
  unfold oldest
  split <;> omega

theorem map_number_numbered (lines : List Text) :
    (numbered lines).map Entry.number = List.range' 1 lines.length := by
  refine List.ext_getElem? fun k => ?_
  rw [List.getElem?_map, getElem?_numbered]
  rcases Nat.lt_or_ge k lines.length with hk | hk
  · rw [List.getElem?_range' hk, List.getElem?_eq_getElem hk]
    simp [Nat.add_comm]
  · rw [List.getElem?_eq_none hk, List.getElem?_eq_none (by simpa using hk)]
    rfl

theorem map_text_numbered (lines : List Text) :
    (numbered lines).map Entry.text = lines.map kept := by
  refine List.ext_getElem? fun k => ?_
  rw [List.getElem?_map, getElem?_numbered, List.getElem?_map, Option.map_map]
  rfl

/-- The last `capacity` of the numbered lines, by their numbers. -/
theorem map_number_lastOf (capacity : Nat) (lines : List Text) :
    (lastOf capacity lines).map Entry.number =
      List.range' (lines.length - min lines.length capacity + 1) (min lines.length capacity) := by
  rw [lastOf, List.map_drop, map_number_numbered, List.drop_range']
  congr 1 <;> omega

theorem map_text_lastOf (capacity : Nat) (lines : List Text) :
    (lastOf capacity lines).map Entry.text =
      (lines.drop (lines.length - min lines.length capacity)).map kept := by
  rw [lastOf, List.map_drop, map_text_numbered, List.map_drop]
  congr 1
  omega

theorem getLast?_lastOf_eq (capacity : Nat) (hcap : 1 ≤ capacity) (lines : List Text) :
    (lastOf capacity lines).getLast? = lines.getLast?.map fun line => ⟨lines.length, kept line⟩ := by
  rcases List.eq_nil_or_concat lines with rfl | ⟨before, line, rfl⟩
  · simp [lastOf, numbered]
  · rw [List.concat_eq_append, getLast?_lastOf capacity hcap]
    simp

theorem isEmpty_eq (h : History) : h.isEmpty = h.entries.isEmpty := by
  have hlen : h.entries.length = h.slots.size := length_entries h
  rw [Bool.eq_iff_iff, List.isEmpty_iff_length_eq_zero, hlen, isEmpty, Array.isEmpty_iff_size_eq_zero]

/-- A history is the end of the list of all lines entered so far. The next line gets the number
of its place in the list. The entries are the last lines, as many as there are slots, oldest
first, with their numbers, and the entry made last is that of the last line. Every slot that is
used for the next line or for the entries is there. -/
theorem entries_enterAll {capacity : Nat} {h : History} (hr : reserve? capacity = some h)
    (lines : List Text) :
    let n := lines.length
    let m := min n (max capacity 1)
    let g := h.enterAll lines
    (g.count = n ∧ ∀ line, (g.append line).count = n + 1) ∧
    (g.entries.map Entry.number = List.range' (n - m + 1) m ∧
      g.entries.map Entry.text = (lines.drop (n - m)).map kept ∧
      ∀ line, ∃ ends, line = kept line ++ ends ∧ (∀ c ∈ ends, isLineEnd c = true) ∧
        ∀ c ∈ (kept line).getLast?, isLineEnd c = false) ∧
    g.last? = lines.getLast?.map (fun line => ⟨n, kept line⟩) ∧
    (g.size = g.entries.length ∧ g.isEmpty = g.entries.isEmpty) ∧
    (0 < g.capacity ∧ (g.capacity ≤ g.slots.size → g.count % g.capacity < g.slots.size) ∧
      g.oldest ≤ g.slots.size) := by
  intro n m g
  obtain rfl := eq_empty_of_reserve? hr
  have hholds : g.Holds lines := (holds_empty capacity).enterAll lines
  have hentries : g.entries = lastOf (max capacity 1) lines := by
    rw [hholds.entries_eq, capacity_enterAll]
    rfl
  refine ⟨⟨hholds.count, fun line => ?_⟩, ⟨?_, ?_, kept_spec⟩, ?_, ⟨?_, isEmpty_eq g⟩,
    hholds.slots_in_range⟩
  · rw [count_append, hholds.count]
  · rw [hentries, map_number_lastOf]
  · rw [hentries, map_text_lastOf]
  · rw [last?, hentries, getLast?_lastOf_eq _ (Nat.le_max_right _ _)]
  · exact (length_entries g).symm

/-- Three lines in two slots : the third takes the place of the first. -/
theorem entries_enterAll_two : ∃ h, reserve? 2 = some h ∧
    let g := h.enterAll ["a\n".toList, "b\r\n".toList, "\rc".toList]
    g.entries.map Entry.number = [2, 3] ∧ g.entries.map Entry.text = [['b'], ['\r', 'c']] ∧
      g.last? = some ⟨3, ['\r', 'c']⟩ ∧ g.slots = #[⟨3, ['\r', 'c']⟩, ⟨2, ['b']⟩] := by
  obtain ⟨h, hr⟩ : ∃ h, reserve? 2 = some h := ⟨_, rfl⟩
  have hall := entries_enterAll hr ["a\n".toList, "b\r\n".toList, "\rc".toList]
  refine ⟨h, hr, hall.2.1.1.trans ?_, hall.2.1.2.1.trans ?_, hall.2.2.1.trans ?_, ?_⟩
  · decide
  · decide +kernel
  · decide +kernel
  · obtain rfl := eq_empty_of_reserve? hr
    decide +kernel

end LineShell.History
