/-!
# Text and bytes

A line, a setting and a history entry are `Text`, lists of characters. A word of a
command, a path and the contents of a file are `Bytes`, because the rules that cut
a line into words and the files themselves know bytes only.
`Text.dropEndWhile` and `Text.trim` cut blanks off the ends of a text.
-/

namespace LineShell

/-- A string of bytes. -/
abbrev Bytes := List UInt8

/-- A string of characters. -/
abbrev Text := List Char

namespace Text

/-- The longest start of `t` whose last element fails `p`. -/
def dropEndWhile {α : Type} (p : α → Bool) (t : List α) : List α :=
  (t.reverse.dropWhile p).reverse

@[simp]
theorem dropEndWhile_nil {α : Type} (p : α → Bool) : dropEndWhile p [] = [] := rfl

/-- `dropEndWhile` cuts off a part that satisfies `p` throughout. -/
theorem dropEndWhile_append_eq {α : Type} (p : α → Bool) (t : List α) :
    dropEndWhile p t ++ (t.reverse.takeWhile p).reverse = t := by
  have h := List.takeWhile_append_dropWhile (p := p) (l := t.reverse)
  rw [dropEndWhile, ← List.reverse_append, h, List.reverse_reverse]

/-- `t` without the elements at both ends that satisfy `p`. -/
def trimWhile {α : Type} (p : α → Bool) (t : List α) : List α :=
  dropEndWhile p (t.dropWhile p)

/-- `t` cut at the first element equal to `c`, without that element, if there is one. -/
def cutAt {α : Type} [DecidableEq α] (c : α) (t : List α) : Option (List α × List α) :=
  match t.dropWhile (· != c) with
  | [] => none
  | _ :: r => some (t.takeWhile (· != c), r)

theorem append_of_cutAt {α : Type} [DecidableEq α] {c : α} {t a b : List α}
    (h : cutAt c t = some (a, b)) : t = a ++ c :: b := by
  unfold cutAt at h
  split at h
  · cases h
  · rename_i x r hd
    cases h
    have hx : x = c := by
      have := List.head?_dropWhile_not (fun y => y != c) t
      rw [hd] at this
      simpa using this
    subst hx
    rw [← hd, List.takeWhile_append_dropWhile]

theorem cutAt_append {α : Type} [DecidableEq α] {c : α} {a : List α} (h : c ∉ a) (b : List α) :
    cutAt c (a ++ c :: b) = some (a, b) := by
  have hall : ∀ x ∈ a, (x != c) = true := by
    intro x hx
    simpa using ne_of_mem_of_not_mem hx h
  have hdrop : (a ++ c :: b).dropWhile (· != c) = c :: b := by
    rw [List.dropWhile_append_of_pos hall]
    simp
  have htake : (a ++ c :: b).takeWhile (· != c) = a := by
    rw [List.takeWhile_append_of_pos hall]
    simp
  rw [cutAt, hdrop, htake]

theorem dropWhile_ne_eq_nil_iff {α : Type} [DecidableEq α] {c : α} {t : List α} :
    t.dropWhile (· != c) = [] ↔ c ∉ t := by
  induction t with
  | nil => simp
  | cons x r ih =>
    by_cases hx : x = c
    · simp [hx]
    · simp [hx, ih, Ne.symm hx]

theorem cutAt_eq_none_iff {α : Type} [DecidableEq α] {c : α} {t : List α} :
    cutAt c t = none ↔ c ∉ t := by
  rw [← dropWhile_ne_eq_nil_iff]
  unfold cutAt
  split <;> simp_all

theorem cutAt_eq_some_iff {α : Type} [DecidableEq α] {c : α} {t a b : List α} :
    cutAt c t = some (a, b) ↔ t = a ++ c :: b ∧ c ∉ a := by
  constructor
  · intro h
    have heq := append_of_cutAt h
    obtain ⟨a', b', heq', hnot⟩ := List.eq_append_cons_of_mem (heq ▸ by simp : c ∈ t)
    rw [heq', cutAt_append hnot] at h
    cases h
    exact ⟨heq, hnot⟩
  · rintro ⟨rfl, hnot⟩
    exact cutAt_append hnot b

theorem length_lt_of_cutAt {α : Type} [DecidableEq α] {c : α} {t a b : List α}
    (h : cutAt c t = some (a, b)) : b.length < t.length := by
  rw [append_of_cutAt h]
  simp
  omega

/-- `t` cut at the last element equal to `c`, without that element, if there is one. -/
def cutAtLast {α : Type} [DecidableEq α] (c : α) (t : List α) : Option (List α × List α) :=
  (cutAt c t.reverse).map fun p => (p.2.reverse, p.1.reverse)

theorem cutAtLast_eq_some_iff {α : Type} [DecidableEq α] {c : α} {t a b : List α} :
    cutAtLast c t = some (a, b) ↔ t = a ++ c :: b ∧ c ∉ b := by
  have hreverse : t = a ++ c :: b ↔ t.reverse = b.reverse ++ c :: a.reverse := by
    rw [← List.reverse_inj]
    simp
  rw [hreverse, ← List.mem_reverse, ← cutAt_eq_some_iff, cutAtLast, Option.map_eq_some_iff]
  constructor
  · rintro ⟨⟨x, y⟩, h, heq⟩
    cases heq
    rwa [List.reverse_reverse, List.reverse_reverse]
  · intro h
    exact ⟨_, h, by simp⟩

theorem cutAtLast_eq_none_iff {α : Type} [DecidableEq α] {c : α} {t : List α} :
    cutAtLast c t = none ↔ c ∉ t := by
  rw [cutAtLast, Option.map_eq_none_iff, cutAt_eq_none_iff, List.mem_reverse]

/-- The records of `t`: the parts between elements equal to `c`. A last part that is
empty is no record. -/
def records {α : Type} [DecidableEq α] (c : α) (t : List α) : List (List α) :=
  match _h : cutAt c t with
  | none => if t.isEmpty then [] else [t]
  | some (first, rest) => first :: records c rest
termination_by t.length
decreasing_by exact length_lt_of_cutAt (by assumption)

theorem records_append {α : Type} [DecidableEq α] {c : α} {a : List α} (h : c ∉ a) (b : List α) :
    records c (a ++ c :: b) = a :: records c b := by
  rw [records]
  split
  · rename_i hcut
    rw [cutAt_append h] at hcut
    cases hcut
  · rename_i hcut
    rw [cutAt_append h] at hcut
    cases hcut
    rfl

theorem records_of_not_mem {α : Type} [DecidableEq α] {c : α} {a : List α} (hne : a ≠ [])
    (h : c ∉ a) : records c a = [a] := by
  rw [records]
  split
  · simp [hne]
  · rename_i hcut
    rw [cutAt_eq_none_iff.mpr h] at hcut
    cases hcut

/-- Of the records that are not empty, those in front of an element `c` are told apart from those
behind it. -/
theorem filter_records_append {α : Type} [DecidableEq α] (c : α) (a b : List α) :
    (records c (a ++ c :: b)).filter (fun r => !r.isEmpty) =
      (records c a).filter (fun r => !r.isEmpty) ++
        (records c b).filter (fun r => !r.isEmpty) := by
  fun_induction records c a with
  | case1 a hcut hempty =>
    obtain rfl := List.isEmpty_iff.mp hempty
    rw [List.nil_append, ← List.nil_append (c :: b), records_append List.not_mem_nil]
    rfl
  | case2 a hcut hne =>
    rw [records_append (cutAt_eq_none_iff.mp hcut), ← List.singleton_append, List.filter_append]
  | case3 a first rest hcut ih =>
    obtain ⟨rfl, hfirst⟩ := cutAt_eq_some_iff.mp hcut
    rw [List.append_assoc, List.cons_append, records_append hfirst, ← List.singleton_append,
      List.filter_append, ih, ← List.append_assoc, ← List.filter_append, List.singleton_append]

/-- Parts with an element `c` behind each of them are the records, if none has one inside. -/
theorem records_flatMap {α : Type} [DecidableEq α] {c : α} {parts : List (List α)}
    (h : ∀ a ∈ parts, c ∉ a) : records c (parts.flatMap (· ++ [c])) = parts := by
  induction parts with
  | nil =>
    rw [records]
    rfl
  | cons a parts ih =>
    obtain ⟨ha, hparts⟩ := List.forall_mem_cons.mp h
    rw [List.flatMap_cons, List.append_assoc, List.singleton_append, records_append ha, ih hparts]

end Text

end LineShell
