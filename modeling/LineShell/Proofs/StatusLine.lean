import LineShell.ProcessTable
import LineShell.Proofs.Boundary
import LineShell.Proofs.Field

/-!
# Status lines

A status line `Says` a number, a name in parentheses and a state. A name may hold parentheses in any
order, so the first one opens it and the last one closes it, and reading finds just what is said
(`parse?_eq_some_iff`).

`Stat.cut?` reads the bytes of a line by the offsets of these two parentheses. What stands between
them can always be cut out, and is the same text (`cut?_encode`).

`parse?_status` puts this together for every line.
-/

namespace LineShell

namespace Stat

/-- The line has the number `pid`, a name in parentheses and a state, with blanks around the number
and in front of the state, and behind the name no other closing parenthesis. -/
inductive Says : Text → Int → Text → Char → Prop
  | intro {before number after name gap rest : Text} {pid : Int} {state : Char}
      (hnumber : Decimal.Integers number pid) (hbefore : Text.IsBlank before)
      (hafter : Text.IsBlank after) (hgap : Text.IsBlank gap)
      (hstate : Text.isBlank state = false) (hrest : ')' ∉ state :: rest) :
      Says (before ++ number ++ after ++ '(' :: (name ++ ')' :: (gap ++ state :: rest))) pid name
        state

variable {line before name after t : Text} {pid : Int} {state : Char} {s : Stat}

/-! ## Reading a line -/

/-- A line that can be read is cut at its first opening and its last closing parenthesis. -/
theorem parse?_eq_some_iff_cut : parse? line = some s ↔
    ∃ before name after, line = before ++ '(' :: (name ++ ')' :: after) ∧
      '(' ∉ before ∧ ')' ∉ after ∧ Decimal.integer? (Text.trim before) = some s.pid ∧
      (Text.trimStart after).head? = some s.state ∧ s.name = name.take nameWidth := by
  simp only [parse?, Option.bind_eq_bind, Option.bind_eq_some_iff, Option.pure_def,
    Option.some.injEq]
  constructor
  · rintro ⟨⟨before, r⟩, hopen, ⟨name, after⟩, hclose, pid, hpid, state, hstate, rfl⟩
    obtain ⟨rfl, hbefore⟩ := Text.cutAt_eq_some_iff.mp hopen
    obtain ⟨rfl, hafter⟩ := Text.cutAtLast_eq_some_iff.mp hclose
    exact ⟨before, name, after, rfl, hbefore, hafter, hpid, hstate, rfl⟩
  · rintro ⟨before, name, after, rfl, hbefore, hafter, hpid, hstate, hname⟩
    refine ⟨(before, name ++ ')' :: after), Text.cutAt_append hbefore _, (name, after),
      Text.cutAtLast_eq_some_iff.mpr ⟨rfl, hafter⟩, s.pid, hpid, s.state, hstate, ?_⟩
    rw [← hname]

/-- The first character that is no blank. -/
theorem head?_trimStart_eq_some_iff : (Text.trimStart t).head? = some state ↔
    ∃ gap rest, t = gap ++ state :: rest ∧ Text.IsBlank gap ∧ Text.isBlank state = false := by
  constructor
  · intro h
    obtain ⟨rest, hrest⟩ := List.head?_eq_some_iff.mp h
    refine ⟨t.takeWhile Text.isBlank, rest, ?_, Text.isBlank_takeWhile t,
      Text.head?_dropWhile _ t state h⟩
    rw [← hrest]
    exact List.takeWhile_append_dropWhile.symm
  · rintro ⟨gap, rest, rfl, hgap, hstate⟩
    rw [Text.trimStart, List.dropWhile_append_of_pos hgap, List.dropWhile_cons, hstate]
    rfl

theorem trim_eq_of_integers {number : Text} (hbefore : Text.IsBlank before)
    (hafter : Text.IsBlank after) (h : Decimal.Integers number pid) :
    Text.trim (before ++ number ++ after) = number :=
  Text.trim_append hbefore hafter (fun c hc => h.isBlank_eq_false c (List.mem_of_head? hc))
    fun c hc => h.isBlank_eq_false c (List.mem_of_getLast? hc)

/-- Reading gives what a line says, with the start of the name. -/
theorem parse?_eq_some_iff : parse? line = some s ↔
    ∃ name, Says line s.pid name s.state ∧ s.name = name.take nameWidth := by
  rw [parse?_eq_some_iff_cut]
  constructor
  · rintro ⟨before, name, after, rfl, -, hafter, hpid, hstate, hname⟩
    have htrim := Text.trimmed_trim before
    rw [Decimal.integer?_eq_some_iff] at hpid
    generalize Text.trim before = number at htrim hpid
    obtain ⟨hblanks, hblanks', -, -⟩ := htrim
    obtain ⟨gap, rest, rfl, hgap, hvisible⟩ := head?_trimStart_eq_some_iff.mp hstate
    have hrest : ')' ∉ s.state :: rest := fun h => hafter (List.mem_append_right _ h)
    exact ⟨name, .intro hpid hblanks hblanks' hgap hvisible hrest, hname⟩
  · rintro ⟨name, hsays, hname⟩
    rcases s with ⟨pid, kept, state⟩
    cases hsays with
    | @intro before number after _ gap rest _ _ hpid hbefore hafter hgap hvisible hrest =>
    have hno : ∀ c, Text.isBlank c = false → ∀ t, Text.IsBlank t → c ∉ t := by
      intro c hc t ht hmem
      rw [ht c hmem] at hc
      cases hc
    have hnumber : '(' ∉ number := by
      intro hmem
      rcases hpid.mem _ hmem with h | h | h <;> revert h <;> decide
    refine ⟨before ++ number ++ after, name, gap ++ state :: rest, rfl, ?_, ?_, ?_, ?_, hname⟩
    · simp only [List.mem_append, not_or]
      exact ⟨⟨hno _ rfl before hbefore, hnumber⟩, hno _ rfl after hafter⟩
    · simp only [List.mem_append, not_or]
      exact ⟨hno _ rfl gap hgap, hrest⟩
    · rw [trim_eq_of_integers hbefore hafter hpid, Decimal.integer?_eq_some_iff]
      exact hpid
    · exact head?_trimStart_eq_some_iff.mpr ⟨gap, rest, rfl, hgap, hvisible⟩

/-- The lines that can be read at all. -/
theorem exists_parse?_iff : (∃ s, parse? line = some s) ↔
    ∃ before name after, line = before ++ '(' :: (name ++ ')' :: after) ∧
      '(' ∉ before ∧ ')' ∉ after ∧ (∃ pid, Decimal.Integers (Text.trim before) pid) ∧
      ∃ c ∈ after, Text.isBlank c = false := by
  have hvisible : ∀ t : Text, (∃ c ∈ t, Text.isBlank c = false) ↔
      ∃ state, (Text.trimStart t).head? = some state := by
    intro t
    simp only [← Option.isSome_iff_exists, List.isSome_head?, Text.trimStart]
    simp [List.dropWhile_eq_nil_iff]
  constructor
  · rintro ⟨s, h⟩
    obtain ⟨before, name, after, rfl, hbefore, hafter, hpid, hstate, -⟩ :=
      parse?_eq_some_iff_cut.mp h
    exact ⟨before, name, after, rfl, hbefore, hafter, ⟨_, Decimal.integer?_eq_some_iff.mp hpid⟩,
      (hvisible after).mpr ⟨_, hstate⟩⟩
  · rintro ⟨before, name, after, rfl, hbefore, hafter, ⟨pid, hpid⟩, hafter'⟩
    obtain ⟨state, hstate⟩ := (hvisible after).mp hafter'
    refine ⟨⟨pid, name.take nameWidth, state⟩, parse?_eq_some_iff_cut.mpr ?_⟩
    exact ⟨before, name, after, rfl, hbefore, hafter, Decimal.integer?_eq_some_iff.mpr hpid, hstate,
      rfl⟩

/-! ## Reading by offsets -/

/-- The offset of the last byte equal to `b`. -/
def lastOffset? (b : UInt8) (bytes : Bytes) : Option Nat :=
  (bytes.reverse.idxOf? b).map fun k => bytes.length - 1 - k

/-- The text between two offsets, none if it cannot be cut out. -/
def textBetween? (line : Bytes) (i j : Nat) : Option Text :=
  (Utf8.slice? line i j).bind Utf8.decode?

/-- Read the bytes of a status line by the offsets of its first opening and its last closing
parenthesis. There is no answer at all if one of the three texts around them cannot be cut out. -/
def cut? (line : Bytes) : Option (Option Stat) :=
  match line.idxOf? 0x28, lastOffset? 0x29 line with
  | some i, some j =>
    if j < i then some none
    else do
      let number ← textBetween? line 0 i
      let name ← textBetween? line (i + 1) j
      let rest ← textBetween? line (j + 1) line.length
      return do
        let pid ← Decimal.integer? (Text.trim number)
        let state ← (Text.trimStart rest).head?
        return ⟨pid, name.take nameWidth, state⟩
  | _, _ => some none

section

variable {b : UInt8} {x y : Bytes}

theorem idxOf?_append (h : b ∉ x) : (x ++ b :: y).idxOf? b = some x.length := by
  induction x with
  | nil => simp [List.idxOf?_cons]
  | cons a x ih =>
    rw [List.mem_cons, not_or] at h
    simp [List.idxOf?_cons, Ne.symm h.1, ih h.2]

theorem lastOffset?_append (h : b ∉ y) : lastOffset? b (x ++ b :: y) = some x.length := by
  have hreverse : (x ++ b :: y).reverse = y.reverse ++ b :: x.reverse := by simp
  rw [lastOffset?, hreverse, idxOf?_append (by simpa using h), Option.map_some, List.length_reverse,
    List.length_append, List.length_cons]
  congr 1
  omega

theorem lastOffset?_eq_none_iff : lastOffset? b x = none ↔ b ∉ x := by
  simp [lastOffset?]

end

/-- A text between two others can be cut out. -/
theorem textBetween?_encode {i j : Nat} (a m z : Text) (hline : line = a ++ m ++ z)
    (hi : i = (Utf8.encode a).length) (hj : j = i + (Utf8.encode m).length) :
    textBetween? (Utf8.encode line) i j = some m := by
  have hcut := Utf8.slice?_append (Utf8.valid_encode a) (Utf8.valid_encode m) (Utf8.valid_encode z)
  rw [textBetween?, hj, hi, hline, Utf8.encode_append, Utf8.encode_append, hcut, Option.bind_some,
    Utf8.decode?_encode]

/-- The bytes of the parentheses. -/
theorem encode_append_open (t r : Text) :
    Utf8.encode (t ++ '(' :: r) = Utf8.encode t ++ 0x28 :: Utf8.encode r :=
  Utf8.encode_append t ('(' :: r)

theorem encode_append_close (t r : Text) :
    Utf8.encode (t ++ ')' :: r) = Utf8.encode t ++ 0x29 :: Utf8.encode r :=
  Utf8.encode_append t (')' :: r)

theorem open_mem_encode_iff (t : Text) : 0x28 ∈ Utf8.encode t ↔ '(' ∈ t :=
  Utf8.mem_encode_iff (by decide)

theorem close_mem_encode_iff (t : Text) : 0x29 ∈ Utf8.encode t ↔ ')' ∈ t :=
  Utf8.mem_encode_iff (by decide)

theorem openOffset (hbefore : '(' ∉ before) (r : Text) :
    (Utf8.encode (before ++ '(' :: r)).idxOf? 0x28 = some (Utf8.encode before).length := by
  rw [encode_append_open, idxOf?_append]
  rwa [open_mem_encode_iff]

theorem closeOffset (t : Text) (hafter : ')' ∉ after) :
    lastOffset? 0x29 (Utf8.encode (t ++ ')' :: after)) = some (Utf8.encode t).length := by
  rw [encode_append_close, lastOffset?_append]
  rwa [close_mem_encode_iff]

/-- The three texts around the two parentheses are cut out. -/
theorem cut?_append (hbefore : '(' ∉ before) (hafter : ')' ∉ after) (name : Text) :
    cut? (Utf8.encode (before ++ '(' :: (name ++ ')' :: after))) = some (do
      let pid ← Decimal.integer? (Text.trim before)
      let state ← (Text.trimStart after).head?
      return ⟨pid, name.take nameWidth, state⟩) := by
  have hclose : before ++ '(' :: (name ++ ')' :: after) =
      (before ++ '(' :: name) ++ ')' :: after := by
    simp
  have hi := openOffset hbefore (name ++ ')' :: after)
  have hj := closeOffset (before ++ '(' :: name) hafter
  rw [← hclose] at hj
  generalize hline : before ++ '(' :: (name ++ ')' :: after) = line at hclose hi hj ⊢
  have hname : (Utf8.encode (before ++ '(' :: name)).length =
      (Utf8.encode before).length + 1 + (Utf8.encode name).length := by
    rw [encode_append_open, List.length_append, List.length_cons]
    omega
  have hlength : (Utf8.encode line).length =
      (Utf8.encode (before ++ '(' :: name)).length + 1 + (Utf8.encode after).length := by
    rw [hclose, encode_append_close, List.length_append, List.length_cons]
    omega
  have hopen : (Utf8.encode before).length + 1 = (Utf8.encode (before ++ ['('])).length := by
    rw [encode_append_open, List.length_append]
    rfl
  have hbehind : (Utf8.encode (before ++ '(' :: name)).length + 1 =
      (Utf8.encode (before ++ '(' :: name ++ [')'])).length := by
    rw [encode_append_close, List.length_append]
    rfl
  have hfirst : textBetween? (Utf8.encode line) 0 (Utf8.encode before).length = some before :=
    textBetween?_encode [] before _ hline.symm rfl (Nat.zero_add _).symm
  have hsecond : textBetween? (Utf8.encode line) ((Utf8.encode before).length + 1)
      (Utf8.encode (before ++ '(' :: name)).length = some name :=
    textBetween?_encode (before ++ ['(']) name (')' :: after) (by simp [hclose]) hopen hname
  have hthird : textBetween? (Utf8.encode line) ((Utf8.encode (before ++ '(' :: name)).length + 1)
      (Utf8.encode line).length = some after :=
    textBetween?_encode (before ++ '(' :: name ++ [')']) after [] (by simp [hclose]) hbehind hlength
  have hlt : ¬(Utf8.encode (before ++ '(' :: name)).length < (Utf8.encode before).length := by omega
  simp only [cut?, hi, hj, if_neg hlt, hfirst, hsecond, hthird]
  rfl

/-- Reading by offsets never fails to cut, and gives what reading the text gives. -/
theorem cut?_encode (line : Text) : cut? (Utf8.encode line) = some (parse? line) := by
  cases hfirst : Text.cutAt '(' line with
  | none =>
    have hi : (Utf8.encode line).idxOf? 0x28 = none := by
      rw [List.idxOf?_eq_none_iff, open_mem_encode_iff]
      exact Text.cutAt_eq_none_iff.mp hfirst
    simp [cut?, parse?, hi, hfirst]
  | some p =>
    obtain ⟨before, r⟩ := p
    obtain ⟨rfl, hbefore⟩ := Text.cutAt_eq_some_iff.mp hfirst
    have hi := openOffset hbefore r
    cases hlast : Text.cutAtLast ')' r with
    | none =>
      have hr : ')' ∉ r := Text.cutAtLast_eq_none_iff.mp hlast
      have hparse : parse? (before ++ '(' :: r) = none := by simp [parse?, hfirst, hlast]
      rw [hparse]
      cases hearly : Text.cutAtLast ')' before with
      | none =>
        have hj : lastOffset? 0x29 (Utf8.encode (before ++ '(' :: r)) = none := by
          rw [lastOffset?_eq_none_iff, close_mem_encode_iff]
          simp [hr, Text.cutAtLast_eq_none_iff.mp hearly]
        simp only [cut?, hi, hj]
      | some q =>
        -- the last closing parenthesis stands in front of the first opening one
        obtain ⟨front, back⟩ := q
        obtain ⟨rfl, hback⟩ := Text.cutAtLast_eq_some_iff.mp hearly
        have hbehind : ')' ∉ back ++ '(' :: r := by simp [hback, hr]
        have hj := closeOffset front hbehind
        rw [← List.cons_append, ← List.append_assoc] at hj
        have hlt : (Utf8.encode front).length < (Utf8.encode (front ++ ')' :: back)).length := by
          rw [encode_append_close, List.length_append, List.length_cons]
          omega
        simp only [cut?, hi, hj, if_pos hlt]
    | some q =>
      obtain ⟨name, after⟩ := q
      obtain ⟨rfl, hafter⟩ := Text.cutAtLast_eq_some_iff.mp hlast
      rw [cut?_append hbefore hafter]
      simp only [parse?, hfirst, hlast, Option.bind_eq_bind, Option.bind_some]

/-! ## Every line -/

/-- A line that has the digits of a number of 32 bits, a name in parentheses and a state, with
blanks around the number and in front of the state, and behind the name no other closing
parenthesis, is read as the number, the first 24 characters of the name and the state. Whatever the
line, its bytes are never cut outside of it or inside a character. It can be read exactly if its
first opening parenthesis stands in front of its last closing one, with a number of 32 bits and
blanks in front of the former, and behind the latter something that is no blank. -/
theorem parse?_status (line : Text) :
    (∀ pid before after name gap state rest, Decimal.IsShort pid → Text.IsBlank before →
      Text.IsBlank after → Text.IsBlank gap → Text.isBlank state = false → state ≠ ')' →
      ')' ∉ rest → line = before ++ Decimal.ofInt pid ++ after ++
        '(' :: (name ++ ')' :: (gap ++ state :: rest)) →
      parse? line = some ⟨pid, name.take 24, state⟩) ∧
    cut? (Utf8.encode line) = some (parse? line) ∧
    ((∃ s, parse? line = some s) ↔
      ∃ before name after, line = before ++ '(' :: (name ++ ')' :: after) ∧
        '(' ∉ before ∧ ')' ∉ after ∧ (∃ pid, Decimal.Integers (Text.trim before) pid) ∧
        ∃ c ∈ after, Text.isBlank c = false) := by
  refine ⟨?_, cut?_encode line, exists_parse?_iff⟩
  rintro pid before after name gap state rest hpid hbefore hafter hgap hstate hne hrest rfl
  refine parse?_eq_some_iff.mpr ⟨name, .intro (Decimal.integers_ofInt hpid) hbefore hafter hgap
    hstate ?_, rfl⟩
  simpa [hrest] using Ne.symm hne

end Stat

end LineShell
