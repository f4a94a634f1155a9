import LineShell.Config
import LineShell.Proofs.Field
import Mathlib.Data.List.Pairwise

/-!
# What a settings file says

A settings file is a list of lines (`Config.Lines`). A line can be passed over (`Config.Skipped`), set
something (`Config.Assigns`) or be wrong (`Config.Wrong`), and one of the three is the case
(`Config.assigns_or_wrong`). The first wrong line is what the whole file gives. If there is none, every
key has the value that was given to it last, and only these values are checked (`Config.Gives`).

`Config.read_eq_iff` : this is what is read. So lines that are passed over only count as lines, and
lines of which no two set one key can change places.
-/

namespace LineShell

namespace Config

open Text (Trimmed IsBlank)

/-! ## The lines of a file -/

/-- A text and its lines. A carriage return in front of a line feed belongs to the line end, and so
does no other. -/
inductive Lines : Text → List Text → Prop
  | nil : Lines [] []
  | last {line : Text} (h : '\n' ∉ line) (hne : line ≠ []) : Lines line [line]
  | feed {line rest : Text} {lines : List Text} (h : '\n' ∉ line)
      (hreturn : line.getLast? ≠ some '\r') (hrest : Lines rest lines) :
      Lines (line ++ '\n' :: rest) (line :: lines)
  | returnFeed {line rest : Text} {lines : List Text} (h : '\n' ∉ line) (hrest : Lines rest lines) :
      Lines (line ++ '\r' :: '\n' :: rest) (line :: lines)

variable {line source rest : Text} {lines : List Text}

theorem dropReturn_append_return (line : Text) : dropReturn (line ++ ['\r']) = line := by
  simp [dropReturn]

theorem dropReturn_of_ne (h : line.getLast? ≠ some '\r') : dropReturn line = line := by
  rw [dropReturn, if_neg h]

theorem linesOf_append (h : '\n' ∉ line) (rest : Text) :
    linesOf (line ++ '\n' :: rest) = dropReturn line :: linesOf rest := by
  rw [linesOf]
  split
  · rename_i hcut
    rw [Text.cutAt_append h] at hcut
    cases hcut
  · rename_i hcut
    rw [Text.cutAt_append h] at hcut
    cases hcut
    rfl

theorem linesOf_of_not_mem (h : '\n' ∉ source) :
    linesOf source = if source.isEmpty then [] else [source] := by
  rw [linesOf]
  split
  · rfl
  · rename_i hcut
    rw [Text.cutAt_eq_none_iff.mpr h] at hcut
    cases hcut

theorem lines_linesOf (source : Text) : Lines source (linesOf source) := by
  fun_induction linesOf source with
  | case1 source hcut hempty =>
    rw [List.isEmpty_iff.mp hempty]
    exact .nil
  | case2 source hcut hempty =>
    exact .last (Text.cutAt_eq_none_iff.mp hcut) (by simpa using hempty)
  | case3 source line rest hcut ih =>
    obtain ⟨rfl, hnot⟩ := Text.cutAt_eq_some_iff.mp hcut
    by_cases hreturn : line.getLast? = some '\r'
    · obtain ⟨body, rfl⟩ := List.getLast?_eq_some_iff.mp hreturn
      rw [dropReturn_append_return, List.append_assoc]
      exact .returnFeed (fun hmem => hnot (List.mem_append_left _ hmem)) ih
    · rw [dropReturn_of_ne hreturn]
      exact .feed hnot hreturn ih

theorem Lines.eq_linesOf (h : Lines source lines) : lines = linesOf source := by
  induction h with
  | nil => rw [linesOf_of_not_mem (by simp)]; rfl
  | @last line h hne => rw [linesOf_of_not_mem h, if_neg (by simpa using hne)]
  | feed h hreturn hrest ih => rw [linesOf_append h, dropReturn_of_ne hreturn, ih]
  | @returnFeed line rest lines h hrest ih =>
    have hnot : '\n' ∉ line ++ ['\r'] := by simpa using h
    have happ := linesOf_append hnot rest
    rw [List.append_assoc, List.singleton_append] at happ
    rw [happ, dropReturn_append_return, ih]

/-! ## What a line says -/

/-- What a file can set. -/
inductive Key where
  | prompt
  | count (n : Count)
deriving DecidableEq

/-- How a key is written. -/
def Key.text : Key → Text
  | prompt => promptKey
  | count n => n.key

/-- A key with a value. -/
inductive Setting where
  | prompt (value : Text)
  | count (n : Count) (value : Nat)
deriving DecidableEq

def Setting.key : Setting → Key
  | prompt _ => .prompt
  | count n _ => .count n

/-- The settings with one more value. -/
def set (c : Config) : Setting → Config
  | .prompt value => { c with prompt := value }
  | .count n value => c.setCount value n

/-- A line that is passed over : nothing but blanks, or `#` behind them. -/
inductive Skipped : Text → Prop
  | blank {line : Text} (h : IsBlank line) : Skipped line
  | comment {blanks : Text} (h : IsBlank blanks) (rest : Text) : Skipped (blanks ++ '#' :: rest)

/-- A line with its first equals sign between a key and a value. -/
structure Cut (line key value : Text) : Prop where
  line_eq : line = key ++ '=' :: value
  not_mem : '=' ∉ key

/-- A line that gives a key a value. That of the prompt is all behind the equals sign, blanks too. -/
inductive Assigns (line : Text) : Setting → Prop
  | prompt {key value : Text} (hcut : Cut line key value) (hkey : Trimmed key Key.prompt.text) :
      Assigns line (.prompt value)
  | count {key value word : Text} {n : Count} {v : Nat} (hcut : Cut line key value)
      (hkey : Trimmed key (Key.count n).text) (hvalue : Trimmed value word)
      (hword : Decimal.Counts word v) : Assigns line (.count n v)

/-- What is wrong with a line that sets nothing. -/
inductive Wrong (line : Text) : Mistake → Prop
  | noEqualsSign (h : '=' ∉ line) : Wrong line (.noEqualsSign line)
  | unknownKey {key value name : Text} (hcut : Cut line key value) (hkey : Trimmed key name)
      (hname : ∀ k : Key, name ≠ k.text) : Wrong line (.unknownKey name)
  | invalidNumber {key value word : Text} {n : Count} (hcut : Cut line key value)
      (hkey : Trimmed key (Key.count n).text) (hvalue : Trimmed value word)
      (hword : ∀ v, ¬Decimal.Counts word v) : Wrong line (.invalidNumber word)

/-- A line that is not passed over sets something or is wrong. -/
theorem assigns_or_wrong (line : Text) : (∃ s, Assigns line s) ∨ ∃ m, Wrong line m := by
  rcases hcut : Text.cutAt '=' line with _ | ⟨key, value⟩
  · exact .inr ⟨_, .noEqualsSign (Text.cutAt_eq_none_iff.mp hcut)⟩
  obtain ⟨rfl, hnot⟩ := Text.cutAt_eq_some_iff.mp hcut
  have hcut : Cut (key ++ '=' :: value) key value := ⟨rfl, hnot⟩
  by_cases hname : ∃ k : Key, Text.trim key = k.text
  · obtain ⟨k, hk⟩ := hname
    have hkey : Trimmed key k.text := Text.trim_eq_iff.mp hk
    rcases k with _ | n
    · exact .inl ⟨_, .prompt hcut hkey⟩
    · by_cases hword : ∃ v, Decimal.Counts (Text.trim value) v
      · obtain ⟨v, hv⟩ := hword
        exact .inl ⟨_, .count hcut hkey (Text.trimmed_trim value) hv⟩
      · exact .inr ⟨_, .invalidNumber hcut hkey (Text.trimmed_trim value) (not_exists.mp hword)⟩
  · exact .inr ⟨_, .unknownKey hcut (Text.trimmed_trim key) (not_exists.mp hname)⟩

theorem isComment_iff : isComment line = true ↔ Skipped line := by
  have hcut : line.takeWhile Text.isBlank ++ Text.trimStart line = line :=
    List.takeWhile_append_dropWhile
  have hblank : IsBlank (line.takeWhile Text.isBlank) := Text.isBlank_takeWhile line
  constructor
  · intro h
    unfold isComment at h
    split at h
    · rename_i hnil
      rw [hnil, List.append_nil] at hcut
      exact .blank (hcut ▸ hblank)
    · rename_i c rest heq
      obtain rfl : c = '#' := by simpa using h
      rw [← hcut, heq]
      exact .comment hblank rest
  · rintro (⟨h⟩ | ⟨h, rest⟩)
    · rw [isComment, Text.trimStart, List.dropWhile_eq_nil_iff.mpr h]
    · have hstart : Text.trimStart ('#' :: rest) = '#' :: rest := rfl
      rw [isComment, Text.trimStart, List.dropWhile_append_of_pos h]
      rw [Text.trimStart] at hstart
      rw [hstart]
      rfl

instance : DecidablePred Skipped := fun _ => decidable_of_iff _ isComment_iff

theorem Cut.cutAt_eq {key value : Text} (h : Cut line key value) : Text.cutAt '=' line = some (key, value) :=
  Text.cutAt_eq_some_iff.mpr ⟨h.line_eq, h.not_mem⟩

theorem key_ne_promptKey (n : Count) : n.key ≠ promptKey := by
  cases n <;> decide

theorem ofKey?_key (n : Count) : Count.ofKey? n.key = some n := by
  cases n <;> decide

theorem ofKey?_eq_none {key : Text} (h : ∀ n : Count, key ≠ n.key) : Count.ofKey? key = none := by
  rw [Count.ofKey?, List.find?_eq_none]
  intro n _
  simpa using (h n).symm

theorem Assigns.assign_eq {s : Setting} (h : Assigns line s) (c : Config) :
    c.assign line = .ok (c.set s) := by
  cases h with
  | prompt hcut hkey =>
    rw [assign, hcut.cutAt_eq]
    simp only [Text.trim_eq_iff.mpr hkey]
    rfl
  | @count key value word n v hcut hkey hvalue hword =>
    rw [assign, hcut.cutAt_eq]
    simp only [Text.trim_eq_iff.mpr hkey, Key.text, if_neg (key_ne_promptKey n), ofKey?_key,
      Text.trim_eq_iff.mpr hvalue, Decimal.count?_eq_some_iff.mpr hword]
    rfl

theorem Wrong.assign_eq {m : Mistake} (h : Wrong line m) (c : Config) :
    c.assign line = .error m := by
  cases h with
  | noEqualsSign h => rw [assign, Text.cutAt_eq_none_iff.mpr h]
  | unknownKey hcut hkey hname =>
    rw [assign, hcut.cutAt_eq]
    simp only [Text.trim_eq_iff.mpr hkey, if_neg (show _ ≠ promptKey from hname .prompt),
      ofKey?_eq_none fun n => hname (.count n)]
  | @invalidNumber key value word n hcut hkey hvalue hword =>
    have hnone : Decimal.count? word = none :=
      Option.eq_none_iff_forall_ne_some.mpr fun v hv => hword v (Decimal.count?_eq_some_iff.mp hv)
    rw [assign, hcut.cutAt_eq]
    simp only [Text.trim_eq_iff.mpr hkey, Key.text, if_neg (key_ne_promptKey n), ofKey?_key,
      Text.trim_eq_iff.mpr hvalue, hnone]

/-- No key begins with a blank or with `#`. -/
theorem Key.exists_text_eq (k : Key) : ∃ c w, k.text = c :: w ∧ Text.isBlank c = false ∧ c ≠ '#' := by
  rcases k with _ | _ | _ | _ <;> exact ⟨_, _, rfl, by decide, by decide⟩

/-- A line that sets something is not passed over. -/
theorem Assigns.not_skipped {s : Setting} (h : Assigns line s) : ¬Skipped line := by
  obtain ⟨key, value, k, hcut, hkey⟩ : ∃ key value, ∃ k : Key, Cut line key value ∧
      Trimmed key k.text := by
    cases h with
    | prompt hcut hkey => exact ⟨_, _, .prompt, hcut, hkey⟩
    | @count _ _ _ n _ hcut hkey => exact ⟨_, _, .count n, hcut, hkey⟩
  obtain ⟨hline, -⟩ := hcut
  obtain ⟨c, w, htext, hblank, hne⟩ := k.exists_text_eq
  rw [htext] at hkey
  obtain ⟨hbefore, -, -, -⟩ := hkey
  rename_i before after
  have hstart : Text.trimStart line = c :: (w ++ after ++ '=' :: value) := by
    rw [hline, Text.trimStart]
    simp only [List.append_assoc, List.dropWhile_append_of_pos hbefore, List.cons_append]
    rw [List.dropWhile_cons, hblank]
    rfl
  rw [← isComment_iff, isComment, hstart]
  simpa using hne

/-! ## What the lines say together -/

/-- A line that is passed over or sets something. -/
def Fine (line : Text) : Prop := Skipped line ∨ ∃ s, Assigns line s

/-- The settings that lines make, one after the other. -/
inductive Settles : List Text → List Setting → Prop
  | nil : Settles [] []
  | skip {line : Text} {lines : List Text} {settings : List Setting} (h : Skipped line)
      (hrest : Settles lines settings) : Settles (line :: lines) settings
  | assign {line : Text} {lines : List Text} {s : Setting} {settings : List Setting}
      (h : Assigns line s) (hrest : Settles lines settings) : Settles (line :: lines) (s :: settings)

variable {before after : List Text} {settings : List Setting} {s : Setting} {m : Mistake}
variable {k : Nat} {c : Config}

theorem assignAll_of_skipped (h : Skipped line) (k : Nat) (lines : List Text) (c : Config) :
    assignAll k (line :: lines) c = assignAll (k + 1) lines c := by
  rw [assignAll, if_pos (isComment_iff.mpr h)]

theorem assignAll_of_assigns (h : Assigns line s) (k : Nat) (lines : List Text) (c : Config) :
    assignAll k (line :: lines) c = assignAll (k + 1) lines (c.set s) := by
  rw [assignAll, if_neg (mt isComment_iff.mp h.not_skipped), h.assign_eq]

theorem assignAll_of_wrong (hline : ¬Skipped line) (h : Wrong line m) (k : Nat) (lines : List Text)
    (c : Config) : assignAll k (line :: lines) c = .error (.mistake k m) := by
  rw [assignAll, if_neg (mt isComment_iff.mp hline), h.assign_eq]

theorem Settles.assignAll_eq (h : Settles lines settings) (k : Nat) (c : Config) :
    assignAll k lines c = .ok (settings.foldl set c) := by
  induction h generalizing k c with
  | nil => rfl
  | skip h hrest ih => rw [assignAll_of_skipped h, ih]
  | assign h hrest ih => rw [assignAll_of_assigns h, ih, List.foldl_cons]

theorem assignAll_append_wrong (hbefore : ∀ l ∈ before, Fine l) (hline : ¬Skipped line)
    (h : Wrong line m) (k : Nat) (after : List Text) (c : Config) :
    assignAll k (before ++ line :: after) c = .error (.mistake (k + before.length) m) := by
  induction before generalizing k c with
  | nil => exact assignAll_of_wrong hline h k after c
  | cons l before ih =>
    have hrest : ∀ l ∈ before, Fine l := fun l hl => hbefore l (List.mem_cons_of_mem _ hl)
    have hlength : k + (l :: before).length = k + 1 + before.length := by
      rw [List.length_cons]
      omega
    rw [List.cons_append, hlength]
    rcases hbefore l List.mem_cons_self with hl | ⟨s, hs⟩
    · rw [assignAll_of_skipped hl, ih hrest]
    · rw [assignAll_of_assigns hs, ih hrest]

/-- Lines make settings, or one of them is the first that is wrong. -/
theorem settles_or_wrong (lines : List Text) : (∃ settings, Settles lines settings) ∨
    ∃ before line after m, lines = before ++ line :: after ∧ (∀ l ∈ before, Fine l) ∧
      ¬Skipped line ∧ Wrong line m := by
  induction lines with
  | nil => exact .inl ⟨[], .nil⟩
  | cons line lines ih =>
    have hcons : Fine line → (∃ before l after m, lines = before ++ l :: after ∧
        (∀ l ∈ before, Fine l) ∧ ¬Skipped l ∧ Wrong l m) →
        ∃ before l after m, line :: lines = before ++ l :: after ∧
          (∀ l ∈ before, Fine l) ∧ ¬Skipped l ∧ Wrong l m := by
      rintro hfine ⟨before, l, after, m, rfl, hbefore, hl, hm⟩
      exact ⟨line :: before, l, after, m, rfl, by simpa [hfine] using hbefore, hl, hm⟩
    by_cases hline : Skipped line
    · rcases ih with ⟨settings, hs⟩ | hwrong
      · exact .inl ⟨settings, .skip hline hs⟩
      · exact .inr (hcons (.inl hline) hwrong)
    · rcases assigns_or_wrong line with ⟨s, hs⟩ | ⟨m, hm⟩
      · rcases ih with ⟨settings, hrest⟩ | hwrong
        · exact .inl ⟨s :: settings, .assign hs hrest⟩
        · exact .inr (hcons (.inr ⟨s, hs⟩) hwrong)
      · exact .inr ⟨[], line, lines, m, rfl, by simp, hline, hm⟩

/-! ## The values in the end -/

/-- The value that a setting gives the prompt. -/
def Setting.prompt? : Setting → Option Text
  | prompt value => some value
  | count _ _ => none

/-- The value that a setting gives the count `n`. -/
def Setting.count? (n : Count) : Setting → Option Nat
  | prompt _ => none
  | count m value => if m = n then some value else none

/-- Every key has the value that was given to it last, or else the one it has by default. -/
structure Final (settings : List Setting) (c : Config) : Prop where
  prompt : c.prompt = (settings.filterMap Setting.prompt?).getLast?.getD ({} : Config).prompt
  count : ∀ n, c.count n =
    (settings.filterMap (Setting.count? n)).getLast?.getD (({} : Config).count n)

theorem count_setCount (c : Config) (v : Nat) (m n : Count) :
    (c.setCount v m).count n = if m = n then v else c.count n := by
  cases m <;> cases n <;> rfl

@[simp]
theorem prompt_setCount (c : Config) (v : Nat) (n : Count) : (c.setCount v n).prompt = c.prompt := by
  cases n <;> rfl

theorem prompt_foldl_set (settings : List Setting) (c : Config) : (settings.foldl set c).prompt =
    (settings.filterMap Setting.prompt?).getLast?.getD c.prompt := by
  induction settings generalizing c with
  | nil => rfl
  | cons s settings ih =>
    rw [List.foldl_cons, ih]
    cases s with
    | prompt value => simp [set, Setting.prompt?, List.getLast?_cons]
    | count n value => simp [set, Setting.prompt?]

theorem count_foldl_set (settings : List Setting) (c : Config) (n : Count) :
    (settings.foldl set c).count n =
      (settings.filterMap (Setting.count? n)).getLast?.getD (c.count n) := by
  induction settings generalizing c with
  | nil => rfl
  | cons s settings ih =>
    rw [List.foldl_cons, ih]
    cases s with
    | prompt value =>
      have hcount : (c.set (.prompt value)).count n = c.count n := by cases n <;> rfl
      simp [Setting.count?, hcount]
    | count m value =>
      by_cases hm : m = n
      · simp [set, Setting.count?, count_setCount, hm, List.getLast?_cons]
      · simp [set, Setting.count?, count_setCount, hm]

theorem eq_of_count_eq {c c' : Config} (hprompt : c.prompt = c'.prompt)
    (hcount : ∀ n, c.count n = c'.count n) : c = c' := by
  obtain ⟨prompt, historySize, maxArguments, lineMax⟩ := c
  obtain ⟨prompt', historySize', maxArguments', lineMax'⟩ := c'
  obtain rfl : prompt = prompt' := hprompt
  obtain rfl : historySize = historySize' := hcount .historySize
  obtain rfl : maxArguments = maxArguments' := hcount .maxArguments
  obtain rfl : lineMax = lineMax' := hcount .lineMax
  rfl

theorem final_iff : Final settings c ↔ c = settings.foldl set {} := by
  constructor
  · intro h
    refine eq_of_count_eq ?_ fun n => ?_
    · rw [h.prompt, prompt_foldl_set]
    · rw [h.count, count_foldl_set]
  · rintro rfl
    exact ⟨prompt_foldl_set settings {}, count_foldl_set settings {}⟩

/-- The first count that is below its least value. -/
inductive TooSmall (c : Config) : Count → Prop
  | historySize (h : c.historySize = 0) : TooSmall c .historySize
  | maxArguments (hbefore : c.historySize ≠ 0) (h : c.maxArguments = 0) : TooSmall c .maxArguments
  | lineMax (hbefore : c.historySize ≠ 0 ∧ c.maxArguments ≠ 0) (h : c.lineMax < 2) :
      TooSmall c .lineMax

theorem TooSmall.check_eq {n : Count} (h : TooSmall c n) : c.check = .error (.tooSmall n) := by
  cases h with
  | historySize h => simp [check, Count.all, Count.least, count, h]
  | maxArguments hbefore h => simp [check, Count.all, Count.least, count, hbefore, h]
  | lineMax hbefore h => simp [check, Count.all, Count.least, count, hbefore, h]

theorem check_eq_ok (hhistory : c.historySize ≠ 0) (harguments : c.maxArguments ≠ 0)
    (hline : 2 ≤ c.lineMax) : c.check = .ok c := by
  simp [check, Count.all, Count.least, count, hhistory, harguments, Nat.not_lt.mpr hline]

/-- What a file with these lines gives. -/
inductive Gives (lines : List Text) : Except ConfigError Config → Prop
  /-- The first line that is wrong is named, whatever stands behind it. -/
  | mistake {before after : List Text} {line : Text} {m : Mistake}
      (hlines : lines = before ++ line :: after) (hbefore : ∀ l ∈ before, Fine l)
      (hline : ¬Skipped line) (hm : Wrong line m) :
      Gives lines (.error (.mistake (before.length + 1) m))
  | tooSmall {settings : List Setting} {c : Config} {n : Count} (h : Settles lines settings)
      (hc : Final settings c) (hn : TooSmall c n) : Gives lines (.error (.tooSmall n))
  | ok {settings : List Setting} {c : Config} (h : Settles lines settings) (hc : Final settings c)
      (hhistory : c.historySize ≠ 0) (harguments : c.maxArguments ≠ 0) (hline : 2 ≤ c.lineMax) :
      Gives lines (.ok c)

theorem exists_gives (lines : List Text) : ∃ result, Gives lines result := by
  rcases settles_or_wrong lines with ⟨settings, h⟩ | ⟨before, line, after, m, hlines, hbefore, hline, hm⟩
  · have hc : Final settings (settings.foldl set {}) := final_iff.mpr rfl
    generalize settings.foldl set {} = c at hc
    by_cases hhistory : c.historySize = 0
    · exact ⟨_, .tooSmall h hc (.historySize hhistory)⟩
    by_cases harguments : c.maxArguments = 0
    · exact ⟨_, .tooSmall h hc (.maxArguments hhistory harguments)⟩
    by_cases hline : c.lineMax < 2
    · exact ⟨_, .tooSmall h hc (.lineMax ⟨hhistory, harguments⟩ hline)⟩
    · exact ⟨_, .ok h hc hhistory harguments (Nat.le_of_not_lt hline)⟩
  · exact ⟨_, .mistake hlines hbefore hline hm⟩

/-- What lines give, from line number `k` on and onto the settings `c`. -/
def outcome (k : Nat) (lines : List Text) (c : Config) : Except ConfigError Config :=
  (assignAll k lines c).bind check

theorem Gives.outcome_eq {result : Except ConfigError Config} (h : Gives lines result) :
    outcome 1 lines {} = result := by
  cases h with
  | mistake hlines hbefore hline hm =>
    rw [outcome, hlines, assignAll_append_wrong hbefore hline hm, Nat.add_comm]
    rfl
  | tooSmall h hc hn =>
    rw [outcome, h.assignAll_eq, ← final_iff.mp hc]
    exact hn.check_eq
  | ok h hc hhistory harguments hline =>
    rw [outcome, h.assignAll_eq, ← final_iff.mp hc]
    exact check_eq_ok hhistory harguments hline

theorem outcome_eq_iff {result : Except ConfigError Config} :
    outcome 1 lines {} = result ↔ Gives lines result := by
  refine ⟨?_, Gives.outcome_eq⟩
  rintro rfl
  obtain ⟨result, h⟩ := exists_gives lines
  rwa [h.outcome_eq]

/-! ## Lines that do not matter, and lines in another order -/

/-- A result without the number of the line that is wrong. -/
def unnumbered : Except ConfigError Config → Except ConfigError Config
  | .error (.mistake _ m) => .error (.mistake 0 m)
  | result => result

/-- Only the number of a wrong line depends on the lines that are passed over. -/
theorem unnumbered_outcome (k j : Nat) (lines : List Text) (c : Config) :
    unnumbered (outcome k lines c) = unnumbered (outcome j (lines.filter (¬Skipped ·)) c) := by
  induction lines generalizing k j c with
  | nil => rfl
  | cons line lines ih =>
    by_cases hline : Skipped line
    · rw [List.filter_cons_of_neg (by simpa using hline), ← ih (k + 1), outcome,
        assignAll_of_skipped hline]
      rfl
    · rw [List.filter_cons_of_pos (by simpa using hline)]
      rcases assigns_or_wrong line with ⟨s, hs⟩ | ⟨m, hm⟩
      · rw [outcome, outcome, assignAll_of_assigns hs, assignAll_of_assigns hs]
        exact ih (k + 1) (j + 1) (c.set s)
      · rw [outcome, outcome, assignAll_of_wrong hline hm, assignAll_of_wrong hline hm]
        rfl

/-- Lines of which no two set one key, and the same lines in another order. -/
structure Rearranged (middle middle' : List Text) : Prop where
  perm : middle.Perm middle'
  fine : ∀ l ∈ middle, Fine l
  keys : middle.Pairwise fun l l' => ∀ s s', Assigns l s → Assigns l' s' → s.key ≠ s'.key

/-- The settings after a line, if it sets something. -/
def put (c : Config) (line : Text) : Config :=
  match c.assign line with
  | .ok c' => c'
  | .error _ => c

theorem put_of_assigns (h : Assigns line s) (c : Config) : c.put line = c.set s := by
  rw [put, h.assign_eq]

theorem put_of_skipped (h : Skipped line) (c : Config) : c.put line = c := by
  rcases assigns_or_wrong line with ⟨s, hs⟩ | ⟨m, hm⟩
  · exact absurd h hs.not_skipped
  · rw [put, hm.assign_eq]

/-- Values of different keys can be set in either order. -/
theorem set_comm {s s' : Setting} (h : s.key ≠ s'.key) (c : Config) :
    (c.set s).set s' = (c.set s').set s := by
  rcases s with _ | ⟨n, v⟩ <;> rcases s' with _ | ⟨n', v'⟩
  · exact absurd rfl h
  · cases n' <;> rfl
  · cases n <;> rfl
  · have hne : n ≠ n' := fun heq => h (congrArg Key.count heq)
    refine eq_of_count_eq (by simp [set]) fun m => ?_
    simp only [set, count_setCount]
    split <;> split <;> simp_all

theorem put_comm {line' : Text} (hline : Fine line) (hline' : Fine line')
    (hkeys : ∀ s s', Assigns line s → Assigns line' s' → s.key ≠ s'.key) (c : Config) :
    (c.put line).put line' = (c.put line').put line := by
  rcases hline with hline | ⟨s, hs⟩
  · rw [put_of_skipped hline, put_of_skipped hline]
  rcases hline' with hline' | ⟨s', hs'⟩
  · rw [put_of_skipped hline', put_of_skipped hline']
  · simp only [put_of_assigns hs, put_of_assigns hs']
    exact set_comm (hkeys s s' hs hs') c

theorem assignAll_append_fine {middle : List Text} (h : ∀ l ∈ middle, Fine l) (k : Nat)
    (after : List Text) (c : Config) : assignAll k (middle ++ after) c =
      assignAll (k + middle.length) after (middle.foldl put c) := by
  induction middle generalizing k c with
  | nil => rfl
  | cons line middle ih =>
    have hrest : ∀ l ∈ middle, Fine l := fun l hl => h l (List.mem_cons_of_mem _ hl)
    have hlength : k + (line :: middle).length = k + 1 + middle.length := by
      rw [List.length_cons]
      omega
    rw [List.cons_append, List.foldl_cons, hlength]
    rcases h line List.mem_cons_self with hline | ⟨s, hs⟩
    · rw [assignAll_of_skipped hline, ih hrest, put_of_skipped hline]
    · rw [assignAll_of_assigns hs, ih hrest, put_of_assigns hs]

theorem Rearranged.foldl_put {middle middle' : List Text} (h : Rearranged middle middle')
    (c : Config) : middle'.foldl put c = middle.foldl put c := by
  refine (h.perm.foldl_eq' (fun l hl l' hl' c => ?_) c).symm
  rcases eq_or_ne l l' with rfl | hne
  · rfl
  · have hsymm : Std.Symm fun l l' : Text =>
        ∀ s s', Assigns l s → Assigns l' s' → s.key ≠ s'.key :=
      ⟨fun l l' hll' s s' hs hs' => (hll' s' s hs' hs).symm⟩
    exact put_comm (h.fine l hl) (h.fine l' hl') (h.keys.forall hl hl' hne) c

/-- What lines give depends on those behind them only by what these give. -/
theorem outcome_append_congr {lines lines' : List Text}
    (h : ∀ k c, outcome k lines c = outcome k lines' c) (before : List Text) (k : Nat) (c : Config) :
    outcome k (before ++ lines) c = outcome k (before ++ lines') c := by
  induction before generalizing k c with
  | nil => exact h k c
  | cons line before ih =>
    rw [List.cons_append, List.cons_append, outcome, outcome]
    by_cases hline : Skipped line
    · rw [assignAll_of_skipped hline, assignAll_of_skipped hline]
      exact ih (k + 1) c
    · rcases assigns_or_wrong line with ⟨s, hs⟩ | ⟨m, hm⟩
      · rw [assignAll_of_assigns hs, assignAll_of_assigns hs]
        exact ih (k + 1) (c.set s)
      · rw [assignAll_of_wrong hline hm, assignAll_of_wrong hline hm]

theorem Rearranged.outcome_eq {middle middle' : List Text} (h : Rearranged middle middle')
    (before after : List Text) (k : Nat) (c : Config) :
    outcome k (before ++ (middle' ++ after)) c = outcome k (before ++ (middle ++ after)) c := by
  refine outcome_append_congr (fun k c => ?_) before k c
  have hfine : ∀ l ∈ middle', Fine l := fun l hl => h.fine l (h.perm.mem_iff.mpr hl)
  rw [outcome, outcome, assignAll_append_fine hfine, assignAll_append_fine h.fine, h.foldl_put,
    h.perm.length_eq]

theorem read_eq_outcome (h : Lines source lines) : read source = outcome 1 lines {} := by
  rw [h.eq_linesOf]
  rfl

/-- A settings file has its lines in one way only, and gives what they give. Lines that are passed
over can be put in and left out : only the number of a wrong line changes. Lines of which no two set
one key can change places, wherever in the file they stand together. -/
theorem read_eq_iff (source : Text) : ∃ lines, (∀ lines', Lines source lines' ↔ lines' = lines) ∧
    (∀ result, read source = result ↔ Gives lines result) ∧
    (∀ source' lines', Lines source' lines' →
      lines'.filter (¬Skipped ·) = lines.filter (¬Skipped ·) →
      unnumbered (read source') = unnumbered (read source)) ∧
    (∀ before middle middle' after source', lines = before ++ (middle ++ after) →
      Lines source' (before ++ (middle' ++ after)) → Rearranged middle middle' →
      read source' = read source) := by
  have hlines := lines_linesOf source
  refine ⟨linesOf source, fun lines' => ⟨Lines.eq_linesOf, fun h => h ▸ hlines⟩, fun result => ?_,
    fun source' lines' hlines' hfilter => ?_, ?_⟩
  · rw [read_eq_outcome hlines]
    exact outcome_eq_iff
  · rw [read_eq_outcome hlines, read_eq_outcome hlines', unnumbered_outcome 1 1 lines', hfilter,
      ← unnumbered_outcome]
  · rintro before middle middle' after source' heq hlines' hmiddle
    rw [read_eq_outcome hlines, read_eq_outcome hlines', heq]
    exact hmiddle.outcome_eq before after 1 {}

/-- A value that is too small does no harm if it does not stand. -/
example : read "line_max=0\n\n# 2\r\nline_max = +7\n".toList = .ok { lineMax := 7 } := by
  decide +kernel

end Config

end LineShell
