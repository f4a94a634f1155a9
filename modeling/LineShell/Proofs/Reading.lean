import LineShell.Input
import LineShell.Proofs.Utf8

/-!
# The lines of an input

An input is `InRecords records tail` : the records, each with a line feed behind it, and a tail
without one. Every input is (`exists_inRecords`), in one way (`InRecords.unique`). Reading takes the
records one by one, and the tail last, unless it is empty.

`readLines_eq_map` : every record makes one line, and so does a tail that is not empty. A record
that is too long makes a shorter line, and its rest is never read. Where none is too long and the
input is text, the lines are the input.
-/

namespace LineShell

/-! ## Taking a record -/

variable {lineMax k : Nat} {input r rest tail : Bytes} {records : List Bytes} {line : Text}

theorem takeRecord_append (h : lineFeed ∉ r) (rest : Bytes) :
    takeRecord (r ++ lineFeed :: rest) = (r, rest) := by
  rw [takeRecord, Text.cutAt_append h]
  rfl

theorem takeRecord_of_not_mem (h : lineFeed ∉ tail) : takeRecord tail = (tail, []) := by
  rw [takeRecord, Text.cutAt_eq_none_iff.mpr h]
  rfl

/-! ## Reading a line -/

theorem readLine_nil (lineMax : Nat) : readLine lineMax [] = none := rfl

theorem readLine_append (h : lineFeed ∉ r) (rest : Bytes) :
    readLine lineMax (r ++ lineFeed :: rest) = some (lineOfRecord lineMax r, rest) := by
  have hne : (r ++ lineFeed :: rest).isEmpty = false := by simp
  rw [readLine, hne, takeRecord_append h]
  rfl

theorem readLine_of_not_mem (h : lineFeed ∉ tail) (hne : tail ≠ []) :
    readLine lineMax tail = some (lineOfRecord lineMax tail, []) := by
  have hempty : tail.isEmpty = false := by simpa using hne
  rw [readLine, hempty, takeRecord_of_not_mem h]
  rfl

/-- The input behind `k` lines. At the end of the input nothing more is read. -/
def restAfter (lineMax : Nat) : Nat → Bytes → Bytes
  | 0, input => input
  | k + 1, input =>
    match readLine lineMax input with
    | none => input
    | some (_, rest) => restAfter lineMax k rest

theorem restAfter_succ (h : readLine lineMax input = some (line, rest)) (k : Nat) :
    restAfter lineMax (k + 1) input = restAfter lineMax k rest := by
  rw [restAfter, h]

theorem restAfter_nil (lineMax k : Nat) : restAfter lineMax k [] = [] := by
  cases k <;> rfl

/-- The next line to be read is the next of all. -/
theorem readLine_restAfter (lineMax k : Nat) (input : Bytes) :
    (readLine lineMax (restAfter lineMax k input)).map Prod.fst =
      (readLines lineMax input)[k]? := by
  induction k generalizing input with
  | zero =>
    rcases hr : readLine lineMax input with _ | ⟨line, rest⟩
    · rw [restAfter, hr, readLines_of_none hr]
      rfl
    · rw [restAfter, hr, readLines_of_some hr]
      rfl
  | succ k ih =>
    rcases hr : readLine lineMax input with _ | ⟨line, rest⟩
    · rw [restAfter, hr, readLines_of_none hr]
      simp [hr]
    · rw [restAfter_succ hr, readLines_of_some hr, ih, List.getElem?_cons_succ]

/-! ## The records of an input -/

/-- The records `records` with their line feeds, and behind them a tail without one. -/
structure InRecords (records : List Bytes) (tail input : Bytes) : Prop where
  input_eq : input = records.flatMap (· ++ [lineFeed]) ++ tail
  ended : ∀ r ∈ records, lineFeed ∉ r
  unended : lineFeed ∉ tail

theorem exists_inRecords (input : Bytes) : ∃ records tail, InRecords records tail input := by
  induction input with
  | nil => exact ⟨[], [], by simp, by simp, by simp⟩
  | cons b input ih =>
    obtain ⟨records, tail, rfl, hrecords, htail⟩ := ih
    by_cases hb : b = lineFeed
    · refine ⟨[] :: records, tail, by simp [hb], ?_, htail⟩
      simpa using hrecords
    · rcases records with _ | ⟨r, records⟩
      · refine ⟨[], b :: tail, by simp, by simp, ?_⟩
        simpa [Ne.symm hb] using htail
      · refine ⟨(b :: r) :: records, tail, by simp, ?_, htail⟩
        simpa [Ne.symm hb] using hrecords

theorem InRecords.of_cons (h : InRecords (r :: records) tail input) :
    ∃ rest, input = r ++ lineFeed :: rest ∧ lineFeed ∉ r ∧ InRecords records tail rest := by
  refine ⟨records.flatMap (· ++ [lineFeed]) ++ tail, ?_, h.ended r (by simp), rfl, ?_, h.unended⟩
  · rw [h.input_eq]
    simp
  · exact fun s hs => h.ended s (List.mem_cons_of_mem r hs)

theorem InRecords.of_nil (h : InRecords [] tail input) : input = tail ∧ lineFeed ∉ tail :=
  ⟨by simpa using h.input_eq, h.unended⟩

/-- The first record is what `takeRecord` takes, so an input has no second division. -/
theorem InRecords.unique {records' : List Bytes} {tail' : Bytes}
    (h : InRecords records tail input) (h' : InRecords records' tail' input) :
    records = records' ∧ tail = tail' := by
  induction records generalizing records' input with
  | nil =>
    obtain ⟨rfl, htail⟩ := h.of_nil
    rcases records' with _ | ⟨r, records'⟩
    · exact ⟨rfl, h'.of_nil.1⟩
    · obtain ⟨rest, rfl, -⟩ := h'.of_cons
      simp at htail
  | cons r records ih =>
    obtain ⟨rest, rfl, hr, hrest⟩ := h.of_cons
    rcases records' with _ | ⟨r', records'⟩
    · obtain ⟨rfl, htail⟩ := h'.of_nil
      simp at htail
    · obtain ⟨rest', heq, hr', hrest'⟩ := h'.of_cons
      have htake := takeRecord_append hr rest
      rw [heq, takeRecord_append hr'] at htake
      obtain ⟨rfl, rfl⟩ := Prod.mk.inj htake
      obtain ⟨rfl, rfl⟩ := ih hrest hrest'
      exact ⟨rfl, rfl⟩

/-- What makes a line : every record, and a tail that is not empty. -/
def partsOf (records : List Bytes) (tail : Bytes) : List Bytes :=
  records ++ if tail = [] then [] else [tail]

/-- Every record makes one line, and a tail that is not empty one more. -/
theorem InRecords.readLines_eq (h : InRecords records tail input) (lineMax : Nat) :
    readLines lineMax input = (partsOf records tail).map (lineOfRecord lineMax) := by
  induction records generalizing input with
  | nil =>
    obtain ⟨rfl, htail⟩ := h.of_nil
    by_cases hne : input = []
    · rw [hne, readLines_of_none (readLine_nil lineMax)]
      rfl
    · rw [readLines_of_some (readLine_of_not_mem htail hne),
        readLines_of_none (readLine_nil lineMax)]
      simp [partsOf, hne]
  | cons r records ih =>
    obtain ⟨rest, rfl, hr, hrest⟩ := h.of_cons
    rw [readLines_of_some (readLine_append hr rest), ih hrest]
    rfl

/-- Behind a line stands what is behind its record. -/
theorem InRecords.restAfter_eq (h : InRecords records tail input) (lineMax : Nat)
    (hk : k ≤ records.length) : restAfter lineMax k input =
      (records.drop k).flatMap (· ++ [lineFeed]) ++ tail := by
  induction k generalizing records input with
  | zero => exact h.input_eq
  | succ k ih =>
    rcases records with _ | ⟨r, records⟩
    · cases hk
    · obtain ⟨rest, rfl, hr, hrest⟩ := h.of_cons
      rw [restAfter_succ (readLine_append hr rest), ih hrest (by simpa using hk)]
      rfl

/-- Behind the last line nothing is left. -/
theorem InRecords.restAfter_eq_nil (h : InRecords records tail input) (lineMax : Nat)
    (hk : (partsOf records tail).length ≤ k) : restAfter lineMax k input = [] := by
  induction records generalizing k input with
  | nil =>
    obtain ⟨rfl, htail⟩ := h.of_nil
    by_cases hne : input = []
    · rw [hne, restAfter_nil]
    · have hpos : 1 ≤ k := by simpa [partsOf, hne] using hk
      obtain ⟨j, rfl⟩ : ∃ j, k = j + 1 := ⟨k - 1, by omega⟩
      rw [restAfter_succ (readLine_of_not_mem htail hne), restAfter_nil]
  | cons r records ih =>
    obtain ⟨rest, rfl, hr, hrest⟩ := h.of_cons
    have hlen : (partsOf records tail).length + 1 ≤ k := by simpa [partsOf] using hk
    obtain ⟨j, rfl⟩ : ∃ j, k = j + 1 := ⟨k - 1, by omega⟩
    rw [restAfter_succ (readLine_append hr rest)]
    exact ih hrest (by omega)

/-! ## The text of an input -/

/-- A line feed stands for itself and is part of no other character. -/
theorem decodeLossy_append_lineFeed (r rest : Bytes) :
    Utf8.decodeLossy (r ++ lineFeed :: rest) =
      Utf8.decodeLossy r ++ '\n' :: Utf8.decodeLossy rest :=
  Utf8.decodeLossy_append_ascii (by decide) r rest

/-- A text without a line feed is read back as it is, if it is not too long. -/
theorem readLine_encode {lineMax : Nat} {t : Text} (ht : '\n' ∉ t)
    (hlen : (Utf8.encode t).length ≤ lineMax - 2) (more : Bytes) :
    readLine lineMax (Utf8.encode (t ++ ['\n']) ++ more) = some (t ++ ['\n'], more) := by
  have hfeed : lineFeed ∉ Utf8.encode t := by
    intro hmem
    obtain ⟨before, after, heq⟩ := List.append_of_mem hmem
    have hdecode := Utf8.decodeLossy_encode t
    rw [heq, decodeLossy_append_lineFeed] at hdecode
    exact ht (by rw [← hdecode]; simp)
  have hinput : Utf8.encode (t ++ ['\n']) ++ more = Utf8.encode t ++ lineFeed :: more := by
    rw [Utf8.encode_append, List.append_assoc]
    rfl
  rw [hinput, readLine_append hfeed, lineOfRecord, List.take_of_length_le hlen,
    Utf8.decodeLossy_encode]

/-- What is read from a record without a line feed has none. -/
theorem not_mem_decodeLossy_take (h : lineFeed ∉ r) (n : Nat) :
    '\n' ∉ Utf8.decodeLossy (r.take n) := by
  intro hmem
  have htake : lineFeed ∈ r.take n := Utf8.mem_of_mem_decodeLossy (by decide) hmem
  exact h (List.mem_of_mem_take htake)

/-- An input is decoded record by record. -/
theorem InRecords.decodeLossy_eq (h : InRecords records tail input) :
    Utf8.decodeLossy input =
      records.flatMap (fun r => Utf8.decodeLossy r ++ ['\n']) ++ Utf8.decodeLossy tail := by
  induction records generalizing input with
  | nil =>
    rw [h.input_eq]
    rfl
  | cons r records ih =>
    obtain ⟨rest, rfl, -, hrest⟩ := h.of_cons
    rw [decodeLossy_append_lineFeed, ih hrest]
    simp

/-- Where no record is too long, the lines are the text of the input. -/
theorem InRecords.flatten_readLines (h : InRecords records tail input)
    (hfit : ∀ r ∈ partsOf records tail, r.length ≤ lineMax - 2) :
    (readLines lineMax input).flatten =
      Utf8.decodeLossy input ++ if tail = [] then [] else ['\n'] := by
  have hlines : (partsOf records tail).map (lineOfRecord lineMax) =
      (partsOf records tail).map fun r => Utf8.decodeLossy r ++ ['\n'] := by
    refine List.map_congr_left fun r hr => ?_
    rw [lineOfRecord, List.take_of_length_le (hfit r hr)]
  have htail : ((if tail = [] then [] else [tail]).map
      fun r => Utf8.decodeLossy r ++ ['\n']).flatten =
        Utf8.decodeLossy tail ++ if tail = [] then [] else ['\n'] := by
    by_cases ht : tail = []
    · simp [ht, Utf8.decodeLossy]
    · simp [ht]
  rw [h.readLines_eq, hlines, h.decodeLossy_eq, partsOf, List.map_append, List.flatten_append,
    htail, List.flatMap_def, List.append_assoc]

theorem InRecords.not_mem_of_mem_partsOf (h : InRecords records tail input)
    (hr : r ∈ partsOf records tail) : lineFeed ∉ r := by
  unfold partsOf at hr
  rcases List.mem_append.mp hr with hr | hr
  · exact h.ended r hr
  · split at hr
    · cases hr
    · obtain rfl := List.mem_singleton.mp hr
      exact h.unended

/-- An input has one division into records, and reading goes through them in order, one line for
each. The line of a record is the text of its first `lineMax - 2` bytes and a line feed, the only
one in it. Behind a line the input goes on with the next record, however much of this one was
dropped. If the input is text and nothing has to be dropped, the lines together are the input, with
a line feed behind a tail that has none. -/
theorem readLines_eq_map (lineMax : Nat) (input : Bytes) :
    ∃ records tail, InRecords records tail input ∧
      (∀ rs t, InRecords rs t input → rs = records ∧ t = tail) ∧
      readLines lineMax input = (partsOf records tail).map
        (fun r => Utf8.decodeLossy (r.take (lineMax - 2)) ++ ['\n']) ∧
      (∀ r ∈ partsOf records tail, '\n' ∉ Utf8.decodeLossy (r.take (lineMax - 2))) ∧
      (∀ k, (readLine lineMax (restAfter lineMax k input)).map Prod.fst =
        (readLines lineMax input)[k]?) ∧
      (∀ k ≤ records.length, restAfter lineMax k input =
        (records.drop k).flatMap (· ++ [lineFeed]) ++ tail) ∧
      (∀ k, (partsOf records tail).length ≤ k → restAfter lineMax k input = []) ∧
      (Utf8.Valid input → (∀ r ∈ partsOf records tail, r.length ≤ lineMax - 2) →
        Utf8.encode (readLines lineMax input).flatten =
          input ++ if tail = [] then [] else [lineFeed]) := by
  obtain ⟨records, tail, h⟩ := exists_inRecords input
  refine ⟨records, tail, h, fun rs t ht => ht.unique h, h.readLines_eq lineMax, ?_,
    fun k => readLine_restAfter lineMax k input, fun k hk => h.restAfter_eq lineMax hk,
    fun k hk => h.restAfter_eq_nil lineMax hk, ?_⟩
  · exact fun r hr => not_mem_decodeLossy_take (h.not_mem_of_mem_partsOf hr) _
  · rintro ⟨t, rfl⟩ hfit
    rw [h.flatten_readLines hfit, Utf8.decodeLossy_encode, Utf8.encode_append]
    split <;> rfl

end LineShell
