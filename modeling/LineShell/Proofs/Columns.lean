import LineShell.ProcessTable
import LineShell.Proofs.Field

/-!
# The columns of the process table

A row is as wide as the header, and its `Columns` are found by counting characters (`columns_row`).
What is too long for its column is cut before, and what is short has blanks in front (`AtRight`).

The row of a `Tabular` process has no line end inside. So the lines of a table are what it was made
of (`records_render`), with the row of a process two lines below its place (`getElem?_lines`).
-/

namespace LineShell.ProcessTable

variable {t field line : Text} {width : Nat} {e : ProcessEntry} {entries : List ProcessEntry}

/-- `field` is `t` with blanks in front of it, `width` characters in all. -/
structure AtRight (width : Nat) (t field : Text) : Prop where
  length : field.length = width
  eq : field = List.replicate (width - t.length) ' ' ++ t

theorem atRight_alignRight (h : t.length ≤ width) : AtRight width t (alignRight width t) :=
  ⟨by rw [length_alignRight, Nat.max_eq_left h], rfl⟩

/-- The columns of a row: the number, the start of the user and the start of the name, each at the
right end of its column, and the state. -/
structure Columns (line : Text) (e : ProcessEntry) : Prop where
  pid : AtRight 7 (Decimal.ofInt e.pid) (line.take 7)
  user : AtRight 14 (e.user.take 14) ((line.drop 9).take 14)
  name : AtRight 24 (e.name.take 24) ((line.drop 25).take 24)
  state : (line.drop 51).head? = some e.state

/-- An integer of at most seven characters has 32 bits. -/
theorem isShort_of_length_le {i : Int} (h : (Decimal.ofInt i).length ≤ 7) : Decimal.IsShort i := by
  cases i with
  | ofNat n =>
    have hn : n < 10 ^ 7 := (Nat.length_toDigits_le_iff (by decide) (by decide)).mp h
    rw [Decimal.IsShort, Int.ofNat_eq_natCast]
    omega
  | negSucc n =>
    have hdigits : (Nat.toDigits 10 (n + 1)).length ≤ 6 := Nat.le_of_succ_le_succ h
    have hn : n + 1 < 10 ^ 6 := (Nat.length_toDigits_le_iff (by decide) (by decide)).mp hdigits
    rw [Decimal.IsShort, Int.negSucc_eq]
    omega

/-- The number is read back from its column. -/
theorem Columns.integer? (h : Columns line e) (hpid : (Decimal.ofInt e.pid).length ≤ 7) :
    Decimal.integer? (Text.trim (line.take 7)) = some e.pid := by
  have hdigits := Decimal.integers_ofInt (isShort_of_length_le hpid)
  have hblank := hdigits.isBlank_eq_false
  have hreplicate : Text.IsBlank (List.replicate (7 - (Decimal.ofInt e.pid).length) ' ') :=
    fun c hc => (List.eq_of_mem_replicate hc) ▸ rfl
  have htrim := Text.trim_append hreplicate Text.isBlank_nil
    (fun c hc => hblank c (List.mem_of_head? hc)) fun c hc => hblank c (List.mem_of_getLast? hc)
  rw [List.append_nil] at htrim
  rw [h.pid.eq, htrim]
  exact Decimal.integer?_eq_some_iff.mpr hdigits

/-- What stands behind a field and the bar after it. -/
theorem drop_field {i j : Nat} {rest : Text} (h : line.drop i = field ++ (['|', ' '] ++ rest))
    (hfield : field.length = width) (hj : i + (width + 2) = j) : line.drop j = rest := by
  rw [← hj, ← List.drop_drop, h, ← List.append_assoc, List.drop_left' (by simp [hfield])]

/-- A row has the columns of its process, and is as wide as the header. -/
theorem columns_row (hpid : (Decimal.ofInt e.pid).length ≤ 7) :
    Columns (row e) e ∧ (row e).length = header.length := by
  have hp := atRight_alignRight hpid
  have hu := atRight_alignRight (List.length_take_le 14 e.user)
  have hn := atRight_alignRight (List.length_take_le 24 e.name)
  have hrow : (row e).drop 0 = alignRight 7 (Decimal.ofInt e.pid) ++ (['|', ' '] ++
      (alignRight 14 (e.user.take 14) ++ (['|', ' '] ++ (alignRight 24 (e.name.take 24) ++
        (['|', ' '] ++ e.state :: "      |".toList))))) := by
    rw [List.drop_zero]
    simp only [row, List.append_assoc]
    rfl
  have huser := drop_field (j := 9) hrow hp.length rfl
  have hname := drop_field (j := 25) huser hu.length rfl
  have hstate := drop_field (j := 51) hname hn.length rfl
  rw [List.drop_zero] at hrow
  refine ⟨⟨?_, ?_, ?_, ?_⟩, ?_⟩
  · rwa [hrow, List.take_left' hp.length]
  · rwa [huser, List.take_left' hu.length]
  · rwa [hname, List.take_left' hn.length]
  · exact congrArg List.head? hstate
  · have hlength := congrArg List.length hstate
    rw [List.length_drop] at hlength
    have hend : (e.state :: "      |".toList).length = 8 := rfl
    have hheader : header.length = 59 := by decide +kernel
    omega

/-- A process whose row is one line of the table. -/
structure Tabular (e : ProcessEntry) : Prop where
  pid : (Decimal.ofInt e.pid).length ≤ 7
  user : '\n' ∉ e.user
  name : '\n' ∉ e.name
  state : e.state ≠ '\n'

theorem Tabular.not_mem_row (h : Tabular e) : '\n' ∉ row e := by
  have hdigits : '\n' ∉ Decimal.ofInt e.pid := by
    intro hmem
    have hblank := (Decimal.integers_ofInt (isShort_of_length_le h.pid)).isBlank_eq_false _ hmem
    cases hblank
  have huser : '\n' ∉ e.user.take userWidth := fun hmem => h.user (List.mem_of_mem_take hmem)
  have hname : '\n' ∉ e.name.take Stat.nameWidth := fun hmem => h.name (List.mem_of_mem_take hmem)
  simp [row, alignRight, hdigits, huser, hname, h.state.symm]

theorem mem_lines_iff : line ∈ lines entries ↔
    line = header ∨ line = separator ∨ ∃ e ∈ entries, row e = line := by
  simp only [lines, List.mem_append, List.mem_cons, List.mem_map, List.not_mem_nil, or_false]
  constructor
  · rintro ((h | h | h) | h)
    exacts [.inl h, .inr (.inl h), .inr (.inr h), .inr (.inl h)]
  · rintro (h | h | h)
    exacts [.inl (.inl h), .inr h, .inl (.inr (.inr h))]

/-- The lines of the table are its records. -/
theorem records_render (h : ∀ e ∈ entries, Tabular e) :
    Text.records '\n' (render entries) = lines entries := by
  refine Text.records_flatMap fun line hmem => ?_
  rcases mem_lines_iff.mp hmem with heq | heq | ⟨e, he, heq⟩
  · rw [heq]
    decide +kernel
  · rw [heq]
    decide +kernel
  · rw [← heq]
    exact (h e he).not_mem_row

theorem length_of_mem_lines (h : ∀ e ∈ entries, Tabular e) (hmem : line ∈ lines entries) :
    line.length = header.length := by
  rcases mem_lines_iff.mp hmem with heq | heq | ⟨e, he, heq⟩
  · rw [heq]
  · rw [heq]
    decide
  · rw [← heq]
    exact (columns_row (h e he).pid).2

/-- Below the header and the line under it stand the rows, in the order of the processes. -/
theorem getElem?_lines {i : Nat} (h : entries[i]? = some e) :
    (lines entries)[i + 2]? = some (row e) := by
  have hlt : i < (entries.map row).length := by
    rw [List.length_map]
    exact (List.getElem?_eq_some_iff.mp h).1
  rw [lines, List.cons_append, List.cons_append, List.getElem?_cons_succ, List.getElem?_cons_succ,
    List.getElem?_append_left hlt, List.getElem?_map, h]
  rfl

end LineShell.ProcessTable
