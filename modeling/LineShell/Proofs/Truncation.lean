import LineShell.Config
import LineShell.Proofs.Reading
import LineShell.Proofs.Replacing

/-!
# How long a line is

A line is made of the first `lineMax - 2` bytes of a record, and is counted in bytes again when it
has become text. `length_readLine_le_iff` : it has no more than `lineMax - 1` bytes, its line feed
among them, exactly if the bytes kept and the growth of their faults leave room for it. Bytes that
are text have no faults, and no line is longer than `3 * (lineMax - 2) + 1`.

A cut can divide a character of a record that is text. `readLine_text` : the line is then the
characters that are whole, the longest start of the text that fits, and one `Utf8.replacement` for
the one that is not.
-/

namespace LineShell

/-! ## One record -/

variable {lineMax : Nat} {input rest record : Bytes} {line : Text}

/-- An input begins with `record`, and `rest` stands behind it. -/
inductive FirstRecord : Bytes → Bytes → Bytes → Prop
  | ended {record : Bytes} (rest : Bytes) (h : lineFeed ∉ record) :
      FirstRecord record rest (record ++ lineFeed :: rest)
  | unended {record : Bytes} (h : lineFeed ∉ record) (hne : record ≠ []) :
      FirstRecord record [] record

theorem FirstRecord.readLine_eq (h : FirstRecord record rest input) :
    readLine lineMax input = some (lineOfRecord lineMax record, rest) := by
  cases h with
  | ended rest h => exact readLine_append h rest
  | unended h hne => exact readLine_of_not_mem h hne

/-- A line that is read is that of the first record. -/
theorem exists_firstRecord (h : readLine lineMax input = some (line, rest)) :
    ∃ record, FirstRecord record rest input ∧ line = lineOfRecord lineMax record := by
  have hfirst : ∃ record rest', FirstRecord record rest' input := by
    obtain ⟨_ | ⟨record, records⟩, tail, hin⟩ := exists_inRecords input
    · obtain ⟨rfl, htail⟩ := hin.of_nil
      refine ⟨input, [], .unended htail ?_⟩
      rintro rfl
      cases h
    · obtain ⟨rest', rfl, hrecord, -⟩ := hin.of_cons
      exact ⟨record, rest', .ended rest' hrecord⟩
  obtain ⟨record, rest', hrecord⟩ := hfirst
  rw [hrecord.readLine_eq] at h
  cases h
  exact ⟨record, hrecord, rfl⟩

/-! ## The bytes of a line -/

theorem length_encode_lineOfRecord {pieces : List Utf8.Piece}
    (h : Utf8.Pieces pieces (record.take (lineMax - 2))) :
    (Utf8.encode (lineOfRecord lineMax record)).length =
      (record.take (lineMax - 2)).length + Utf8.growth pieces + 1 := by
  rw [lineOfRecord, h.decodeLossy_eq, Utf8.encode_append, List.length_append, h.length_encode]
  rfl

/-- A line holds the bytes kept of its record, what the replacements of their faults have more, and
the line feed. So it has at most `lineMax - 1` bytes exactly if the bytes kept leave room for the
growth of their faults, as they do when they are text, and in no case more than
`3 * (lineMax - 2) + 1`. -/
theorem length_readLine_le_iff (hmax : 2 ≤ lineMax)
    (hread : readLine lineMax input = some (line, rest)) :
    ∃ record pieces, FirstRecord record rest input ∧
      Utf8.Pieces pieces (record.take (lineMax - 2)) ∧
      line = pieces.map Utf8.Piece.text ++ ['\n'] ∧
      (Utf8.encode line).length =
        (record.take (lineMax - 2)).length + Utf8.growth pieces + 1 ∧
      ((Utf8.encode line).length ≤ lineMax - 1 ↔
        (record.take (lineMax - 2)).length + Utf8.growth pieces ≤ lineMax - 2) ∧
      (Utf8.Valid (record.take (lineMax - 2)) → (Utf8.encode line).length ≤ lineMax - 1) ∧
      (Utf8.encode line).length ≤ 3 * (lineMax - 2) + 1 := by
  obtain ⟨record, hrecord, rfl⟩ := exists_firstRecord hread
  obtain ⟨pieces, hpieces⟩ := Utf8.exists_pieces (record.take (lineMax - 2))
  have hlength := length_encode_lineOfRecord hpieces
  have hkept : (record.take (lineMax - 2)).length ≤ lineMax - 2 := List.length_take_le _ _
  have hgrowth := hpieces.growth_le
  refine ⟨record, pieces, hrecord, hpieces, ?_, hlength, by omega, ?_, by omega⟩
  · rw [lineOfRecord, hpieces.decodeLossy_eq]
  · rintro ⟨t, ht⟩
    rw [lineOfRecord, ht, Utf8.decodeLossy_encode, Utf8.encode_append, ← ht, List.length_append]
    have hone : (Utf8.encode ['\n']).length = 1 := rfl
    omega

/-- Two faults among five bytes kept, one of two bytes and one of one : the line grows by three
bytes, and is two too long. -/
theorem length_readLine_le_iff_faulty : 2 ≤ 8 ∧ ∃ line,
    readLine 8 [0x61, 0xE2, 0x82, 0x28, 0xFF, 0x0A, 0x62] = some (line, [0x62]) ∧
      ¬(Utf8.encode line).length ≤ 8 - 1 ∧
      ∃ record pieces, FirstRecord record [0x62] [0x61, 0xE2, 0x82, 0x28, 0xFF, 0x0A, 0x62] ∧
        Utf8.Pieces pieces (record.take 6) ∧ line = pieces.map Utf8.Piece.text ++ ['\n'] ∧
        9 = (record.take 6).length + Utf8.growth pieces + 1 := by
  have hread : readLine 8 [0x61, 0xE2, 0x82, 0x28, 0xFF, 0x0A, 0x62] =
      some (['a', Utf8.replacement, '(', Utf8.replacement, '\n'], [0x62]) := by decide +kernel
  obtain ⟨record, pieces, hrecord, hpieces, hline, hlength, -⟩ :=
    length_readLine_le_iff (by decide) hread
  exact ⟨by decide, _, hread, by decide, record, pieces, hrecord, hpieces, hline, hlength⟩

/-- With a `lineMax` of three, one byte of a record is kept. Where this is the first of a character
of two bytes, the line has four bytes and not two. -/
theorem not_within_divided : ({ lineMax := 3 } : Config).check = .ok { lineMax := 3 } ∧
    ∃ line, readLine 3 (Utf8.encode ['é']) = some (line, []) ∧
      ¬(Utf8.encode line).length ≤ 3 - 1 :=
  ⟨by decide, [Utf8.replacement, '\n'], by decide +kernel, by decide⟩

/-! ## Text that is cut -/

namespace Utf8

variable {c : Char} {n : Nat} {p q t : Text} {x : Bytes}

theorem length_encode_cons (c : Char) (t : Text) :
    (encode (c :: t)).length = c.utf8Size + (encode t).length := by
  rw [encode_cons, List.length_append, String.length_utf8EncodeChar]

/-- A character that is cut off after some of its bytes is one fault. -/
theorem decodeLossy_of_cut (hne : x ≠ []) (h : x <+: String.utf8EncodeChar c)
    (hx : x ≠ String.utf8EncodeChar c) : decodeLossy x = [replacement] := by
  have hfault : Fault x [] := by
    refine ⟨hne, fun c' hc' => ?_, .inr ⟨c, h⟩, fun y hy _ => by simpa using hy.length_le⟩
    rw [List.append_nil] at hc'
    obtain rfl := eq_of_prefix_encodeChar (hc'.trans h)
    exact hx (h.eq_of_length_le hc'.length_le)
  have hpieces := Pieces.fault hfault .nil
  rw [List.append_nil] at hpieces
  rw [hpieces.decodeLossy_eq]
  rfl

/-- The characters of a text that end within its first `n` bytes. -/
def fitting : Nat → Text → Text
  | _, [] => []
  | n, c :: t => if c.utf8Size ≤ n then c :: fitting (n - c.utf8Size) t else []

theorem prefix_of_fitting (n : Nat) (t : Text) : fitting n t <+: t := by
  fun_induction fitting n t with
  | case1 n => exact List.nil_prefix
  | case2 n c t h ih => exact List.cons_prefix_cons.mpr ⟨rfl, ih⟩
  | case3 n c t h => exact List.nil_prefix

theorem length_encode_fitting_le (n : Nat) (t : Text) : (encode (fitting n t)).length ≤ n := by
  fun_induction fitting n t with
  | case1 n => exact Nat.zero_le n
  | case2 n c t h ih =>
    rw [length_encode_cons]
    omega
  | case3 n c t h => exact Nat.zero_le n

/-- No longer start of the text fits. -/
theorem prefix_fitting_of_le (hq : q <+: t) (hlen : (encode q).length ≤ n) : q <+: fitting n t := by
  fun_induction fitting n t generalizing q with
  | case1 n => exact hq
  | case2 n c t h ih =>
    rcases q with _ | ⟨e, q⟩
    · exact List.nil_prefix
    · obtain ⟨rfl, hq'⟩ := List.cons_prefix_cons.mp hq
      rw [length_encode_cons] at hlen
      exact List.cons_prefix_cons.mpr ⟨rfl, ih hq' (by omega)⟩
  | case3 n c t h =>
    rcases q with _ | ⟨e, q⟩
    · exact List.nil_prefix
    · obtain ⟨rfl, -⟩ := List.cons_prefix_cons.mp hq
      rw [length_encode_cons] at hlen
      omega

/-- Behind the first `n` bytes of a text some character is not over. -/
def Divides (n : Nat) (t : Text) : Prop :=
  ∃ p c s, t = p ++ c :: s ∧ (encode p).length < n ∧ n < (encode p).length + c.utf8Size

theorem not_divides_nil (n : Nat) : ¬Divides n [] := by
  rintro ⟨p, c, s, h, -⟩
  simp at h

theorem divides_cons_of_le (h : c.utf8Size ≤ n) :
    Divides n (c :: t) ↔ Divides (n - c.utf8Size) t := by
  constructor
  · rintro ⟨_ | ⟨e, p⟩, d, s, heq, hlt, hgt⟩
    · obtain ⟨rfl, -⟩ := List.cons.inj heq
      simp at hgt
      omega
    · obtain ⟨rfl, rfl⟩ := List.cons.inj heq
      rw [length_encode_cons] at hlt hgt
      exact ⟨p, d, s, rfl, by omega, by omega⟩
  · rintro ⟨p, d, s, rfl, hlt, hgt⟩
    refine ⟨c :: p, d, s, rfl, ?_, ?_⟩ <;> rw [length_encode_cons] <;> omega

theorem divides_cons_of_lt (h : n < c.utf8Size) : Divides n (c :: t) ↔ 0 < n := by
  constructor
  · rintro ⟨p, d, s, -, hlt, -⟩
    omega
  · intro hpos
    exact ⟨[], c, t, rfl, hpos, by simpa using h⟩

theorem Divides.lt_length (h : Divides n t) : n < (encode t).length := by
  obtain ⟨p, c, s, rfl, -, hgt⟩ := h
  rw [encode_append, List.length_append, length_encode_cons]
  omega

/-- The first bytes of a text are read as its first characters, with a replacement behind them if
the cut divides the next one. -/
theorem decodeLossy_take_encode (n : Nat) (t : Text) :
    ∃ mark, decodeLossy ((encode t).take n) = fitting n t ++ mark ∧
      (Divides n t ∧ mark = [replacement] ∨ ¬Divides n t ∧ mark = []) := by
  fun_induction fitting n t with
  | case1 n => exact ⟨[], by simp [decodeLossy], .inr ⟨not_divides_nil n, rfl⟩⟩
  | case2 n c t h ih =>
    obtain ⟨mark, heq, hmark⟩ := ih
    refine ⟨mark, ?_, by rwa [divides_cons_of_le h]⟩
    have htake : (encode (c :: t)).take n =
        String.utf8EncodeChar c ++ (encode t).take (n - c.utf8Size) := by
      rw [encode_cons, List.take_append, String.length_utf8EncodeChar,
        List.take_of_length_le (by rwa [String.length_utf8EncodeChar])]
    rw [htake, decodeLossy_encodeChar_append, heq, List.cons_append]
  | case3 n c t h =>
    have hlt : n < (String.utf8EncodeChar c).length := by
      rw [String.length_utf8EncodeChar]
      omega
    have htake : (encode (c :: t)).take n = (String.utf8EncodeChar c).take n := by
      rw [encode_cons, List.take_append_of_le_length (Nat.le_of_lt hlt)]
    rw [htake, divides_cons_of_lt (by omega)]
    rcases Nat.eq_zero_or_pos n with rfl | hpos
    · exact ⟨[], by simp [decodeLossy], .inr ⟨Nat.lt_irrefl 0, rfl⟩⟩
    · refine ⟨[replacement], ?_, .inl ⟨hpos, rfl⟩⟩
      have hlength : ((String.utf8EncodeChar c).take n).length = n := by
        rw [List.length_take]
        omega
      refine decodeLossy_of_cut (c := c) ?_ (List.take_prefix n _) ?_
      · intro hnil
        rw [hnil] at hlength
        exact absurd hlength (Nat.ne_of_lt hpos)
      · intro hall
        rw [hall] at hlength
        omega

end Utf8

/-- The line of a record that is text : the longest start of the text that fits in `lineMax - 2`
bytes, one replacement exactly if the text is longer and the cut divides a character, and a line
feed. -/
theorem readLine_text {t : Text} (h : FirstRecord (Utf8.encode t) rest input) (lineMax : Nat) :
    ∃ kept mark, readLine lineMax input = some (kept ++ mark ++ ['\n'], rest) ∧
      (kept <+: t ∧ (Utf8.encode kept).length ≤ lineMax - 2 ∧
        ∀ q, q <+: t → (Utf8.encode q).length ≤ lineMax - 2 → q <+: kept) ∧
      (mark = [] ∨ mark = [Utf8.replacement]) ∧
      (mark = [Utf8.replacement] ↔
        lineMax - 2 < (Utf8.encode t).length ∧ Utf8.Divides (lineMax - 2) t) := by
  obtain ⟨mark, heq, hmark⟩ := Utf8.decodeLossy_take_encode (lineMax - 2) t
  refine ⟨Utf8.fitting (lineMax - 2) t, mark, ?_, ⟨Utf8.prefix_of_fitting _ t,
    Utf8.length_encode_fitting_le _ t, fun q hq hlen => Utf8.prefix_fitting_of_le hq hlen⟩, ?_, ?_⟩
  · rw [h.readLine_eq, lineOfRecord, heq]
  · rcases hmark with ⟨-, hmark⟩ | ⟨-, hmark⟩
    · exact .inr hmark
    · exact .inl hmark
  · rcases hmark with ⟨hdivides, rfl⟩ | ⟨hwhole, rfl⟩
    · exact iff_of_true rfl ⟨hdivides.lt_length, hdivides⟩
    · exact iff_of_false (by simp) fun hcut => hwhole hcut.2

/-- Five bytes of a text of seven are kept, and cut the character of three bytes after the second. -/
theorem readLine_text_divided :
    FirstRecord (Utf8.encode ['a', 'é', '€', 'b']) [0x6C]
        (Utf8.encode ['a', 'é', '€', 'b'] ++ lineFeed :: [0x6C]) ∧
      ∃ kept, readLine 7 (Utf8.encode ['a', 'é', '€', 'b'] ++ lineFeed :: [0x6C]) =
          some (kept ++ [Utf8.replacement] ++ ['\n'], [0x6C]) ∧
        kept <+: ['a', 'é', '€', 'b'] ∧ (Utf8.encode kept).length ≤ 5 ∧ ['a', 'é'] <+: kept := by
  have hrecord : FirstRecord (Utf8.encode ['a', 'é', '€', 'b']) [0x6C]
      (Utf8.encode ['a', 'é', '€', 'b'] ++ lineFeed :: [0x6C]) := .ended [0x6C] (by decide)
  have hdivides : Utf8.Divides 5 ['a', 'é', '€', 'b'] :=
    ⟨['a', 'é'], '€', ['b'], rfl, by decide, by decide⟩
  obtain ⟨kept, mark, hread, ⟨hstart, hlength, hlongest⟩, -, hmark⟩ := readLine_text hrecord 7
  obtain rfl := hmark.mpr ⟨by decide, hdivides⟩
  exact ⟨hrecord, kept, hread, hstart, hlength, hlongest _ ⟨['€', 'b'], rfl⟩ (by decide)⟩

end LineShell
