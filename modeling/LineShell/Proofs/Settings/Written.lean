import LineShell.Proofs.Settings

/-!
# Settings that are written down

`Config.Written c keys source` : the text `source` gives each of `keys` the value that it has in `c`,
one on a line, with lines that are passed over between them. A count stands in decimal digits with
blanks around it, and the prompt as it is.

`Config.read_written` : read again, a text with every key gives the same settings, in whatever order
the keys stand. No prompt is lost but one with a line feed in it or a carriage return at its end.
-/

namespace LineShell.Config

open Text (Trimmed IsBlank)

/-- Spaces and tabs. -/
def IsPad (t : Text) : Prop := ∀ x ∈ t, x = ' ' ∨ x = '\t'

/-- The two ways to end a line. -/
inductive LineEnd : Text → Prop
  | feed : LineEnd ['\n']
  | returnFeed : LineEnd ['\r', '\n']

/-- A line that gives a key the value that it has in `c`. -/
inductive Writes (c : Config) : Key → Text → Prop
  | prompt {before after : Text} (hbefore : IsPad before) (hafter : IsPad after) :
      Writes c .prompt (before ++ Key.prompt.text ++ after ++ '=' :: c.prompt)
  | count {n : Count} {before after left right : Text} (hbefore : IsPad before)
      (hafter : IsPad after) (hleft : IsPad left) (hright : IsPad right) :
      Writes c (.count n) (before ++ (Key.count n).text ++ after ++
        '=' :: (left ++ Decimal.ofNat (c.count n) ++ right))

/-- A text that gives the keys `keys` their values in `c`. -/
inductive Written (c : Config) : List Key → Text → Prop
  | nil : Written c [] []
  | skip {keys : List Key} {line ending rest : Text} (h : Skipped line) (hfeed : '\n' ∉ line)
      (hend : LineEnd ending) (hrest : Written c keys rest) :
      Written c keys (line ++ ending ++ rest)
  | write {key : Key} {keys : List Key} {line ending rest : Text} (h : Writes c key line)
      (hend : LineEnd ending) (hrest : Written c keys rest) :
      Written c (key :: keys) (line ++ ending ++ rest)

variable {c : Config} {key : Key} {keys : List Key} {line ending rest source t : Text}

/-! ## The characters of a line -/

theorem IsPad.isBlank (h : IsPad t) : IsBlank t := by
  intro x hx
  rcases h x hx with rfl | rfl <;> decide

theorem IsPad.not_mem (h : IsPad t) {x : Char} (hspace : x ≠ ' ') (htab : x ≠ '\t') : x ∉ t := by
  intro hx
  exact (h x hx).elim hspace htab

/-- A key has no character that means something in a file, and no blank at its ends. -/
theorem Key.text_spec (k : Key) : ('=' ∉ k.text ∧ '\n' ∉ k.text ∧ '\r' ∉ k.text) ∧
    (∀ x ∈ k.text.head?, Text.isBlank x = false) ∧
      ∀ x ∈ k.text.getLast?, Text.isBlank x = false := by
  refine ⟨by rcases k with _ | _ | _ | _ <;> decide, ?_, ?_⟩
  · obtain ⟨x, w, htext, hblank, -⟩ := k.exists_text_eq
    rw [htext]
    simpa using hblank
  · obtain ⟨x, hlast, hblank⟩ : ∃ x, k.text.getLast? = some x ∧ Text.isBlank x = false := by
      rcases k with _ | _ | _ | _ <;> exact ⟨_, rfl, by decide⟩
    rw [hlast]
    simpa using hblank

/-- A character is in a line only from the prompt, if it has no place of its own there. -/
theorem Writes.not_mem {x : Char} (h : Writes c key line) (hprompt : key = .prompt → x ∉ c.prompt)
    (hspace : x ≠ ' ') (htab : x ≠ '\t') (hequals : x ≠ '=') (hdigit : x.isDigit = false)
    (hkey : x ∉ key.text) : x ∉ line := by
  cases h with
  | prompt hbefore hafter =>
    simp [hbefore.not_mem hspace htab, hafter.not_mem hspace htab, hkey, hequals, hprompt rfl]
  | @count n _ _ _ _ hbefore hafter hleft hright =>
    have hnumeral : x ∉ Decimal.ofNat (c.count n) := by
      intro hmem
      rw [(Decimal.numeral_ofNat (c.count n)).digits x hmem] at hdigit
      cases hdigit
    simp [hbefore.not_mem hspace htab, hafter.not_mem hspace htab, hleft.not_mem hspace htab,
      hright.not_mem hspace htab, hkey, hequals, hnumeral]

/-- A line that is written ends in a carriage return only where the prompt does. -/
theorem Writes.getLast?_ne (h : Writes c key line) (hreturn : c.prompt.getLast? ≠ some '\r') :
    line.getLast? ≠ some '\r' := by
  rcases key with _ | n
  · rcases h with ⟨hbefore, hafter⟩
    rw [List.getLast?_append, List.getLast?_cons]
    rcases hlast : c.prompt.getLast? with _ | x
    · simp
    · simpa [hlast] using hreturn
  · have hnot : '\r' ∉ line := h.not_mem (by simp) (by decide) (by decide) (by decide) (by decide)
      (Key.count n).text_spec.1.2.2
    exact fun hlast => hnot (List.mem_of_mem_getLast? hlast)

/-! ## Reading what was written -/

/-- The setting that gives a key its value in `c`. -/
def setting (c : Config) : Key → Setting
  | .prompt => .prompt c.prompt
  | .count n => .count n (c.count n)

@[simp]
theorem key_setting (c : Config) (k : Key) : (c.setting k).key = k := by
  cases k <;> rfl

theorem cut_append {before after value : Text} (hbefore : IsPad before) (hafter : IsPad after)
    (k : Key) : Cut (before ++ k.text ++ after ++ '=' :: value) (before ++ k.text ++ after) value := by
  refine ⟨rfl, ?_⟩
  simp [hbefore.not_mem, hafter.not_mem, k.text_spec.1.1]

theorem trimmed_key {before after : Text} (hbefore : IsPad before) (hafter : IsPad after)
    (k : Key) : Trimmed (before ++ k.text ++ after) k.text :=
  .intro hbefore.isBlank hafter.isBlank k.text_spec.2.1 k.text_spec.2.2

theorem Writes.assigns (h : Writes c key line) (hword : ∀ n, c.count n < Decimal.countBound) :
    Assigns line (c.setting key) := by
  cases h with
  | prompt hbefore hafter =>
    exact .prompt (cut_append hbefore hafter .prompt) (trimmed_key hbefore hafter .prompt)
  | @count n before after left right hbefore hafter hleft hright =>
    have hnumeral := Decimal.numeral_ofNat (c.count n)
    have hvalue : Trimmed (left ++ Decimal.ofNat (c.count n) ++ right) (Decimal.ofNat (c.count n)) :=
      .intro hleft.isBlank hright.isBlank
        (fun x hx => Text.isBlank_of_isDigit (hnumeral.digits x (List.mem_of_mem_head? hx)))
        (fun x hx => Text.isBlank_of_isDigit (hnumeral.digits x (List.mem_of_mem_getLast? hx)))
    exact .count (cut_append hbefore hafter (.count n)) (trimmed_key hbefore hafter (.count n)) hvalue
      (.plain hnumeral (hword n))

/-- A line without a carriage return at its end is the same with either line end. -/
theorem linesOf_append_end (hfeed : '\n' ∉ line) (hreturn : line.getLast? ≠ some '\r')
    (hend : LineEnd ending) (rest : Text) :
    linesOf (line ++ ending ++ rest) = line :: linesOf rest := by
  have hrest := lines_linesOf rest
  rw [List.append_assoc]
  cases hend with
  | feed => exact (Lines.feed hfeed hreturn hrest).eq_linesOf.symm
  | returnFeed => exact (Lines.returnFeed hfeed hrest).eq_linesOf.symm

/-- A line that is passed over is so without a carriage return at its end. -/
theorem Skipped.of_append_return (h : Skipped (t ++ ['\r'])) : Skipped t := by
  generalize heq : t ++ ['\r'] = line at h
  rcases h with h | ⟨h, rest⟩
  · exact .blank fun x hx => h x (heq ▸ List.mem_append_left _ hx)
  · rename_i blanks
    rcases List.eq_nil_or_concat rest with rfl | ⟨body, x, rfl⟩
    · have hlast := (List.append_inj' heq rfl).2
      simp at hlast
    · have hbody : t ++ ['\r'] = (blanks ++ '#' :: body) ++ [x] := by simpa using heq
      rw [(List.append_inj' hbody rfl).1]
      exact .comment h body

theorem exists_linesOf_of_skipped (h : Skipped line) (hfeed : '\n' ∉ line) (hend : LineEnd ending)
    (rest : Text) : ∃ l, Skipped l ∧ linesOf (line ++ ending ++ rest) = l :: linesOf rest := by
  by_cases hreturn : line.getLast? = some '\r'
  · -- one carriage return more, which is the one that goes with the line feed
    obtain ⟨body, rfl⟩ := List.getLast?_eq_some_iff.mp hreturn
    have hrest := lines_linesOf rest
    have hbody : '\n' ∉ body := fun hmem => hfeed (List.mem_append_left _ hmem)
    cases hend with
    | feed =>
      refine ⟨body, h.of_append_return, ?_⟩
      simpa using (Lines.returnFeed hbody hrest).eq_linesOf.symm
    | returnFeed =>
      refine ⟨body ++ ['\r'], h, ?_⟩
      simpa using (Lines.returnFeed hfeed hrest).eq_linesOf.symm
  · exact ⟨line, h, linesOf_append_end hfeed hreturn hend rest⟩

theorem Written.settles (h : Written c keys source) (hword : ∀ n, c.count n < Decimal.countBound)
    (hfeed : '\n' ∉ c.prompt) (hreturn : c.prompt.getLast? ≠ some '\r') :
    Settles (linesOf source) (keys.map c.setting) := by
  induction h with
  | nil =>
    rw [linesOf_of_not_mem (by simp)]
    exact .nil
  | @skip keys line ending rest h hline hend hrest ih =>
    obtain ⟨l, hl, heq⟩ := exists_linesOf_of_skipped h hline hend rest
    rw [heq]
    exact .skip hl ih
  | @write key keys line ending rest h hend hrest ih =>
    have hline : '\n' ∉ line :=
      h.not_mem (fun _ => hfeed) (by decide) (by decide) (by decide) (by decide) key.text_spec.1.2.1
    rw [linesOf_append_end hline (h.getLast?_ne hreturn) hend]
    exact .assign (h.assigns hword) ih

/-- Every key once. -/
def Key.all : List Key := .prompt :: Count.all.map .count

/-- Settings are known by the values of all keys. -/
theorem foldl_set_of_perm (hkeys : keys.Perm Key.all) (c : Config) :
    (keys.map c.setting).foldl set {} = c := by
  have hcomm : ∀ s ∈ keys.map c.setting, ∀ s' ∈ keys.map c.setting, ∀ d : Config,
      (d.set s).set s' = (d.set s').set s := by
    intro s hs s' hs' d
    obtain ⟨k, -, rfl⟩ := List.mem_map.mp hs
    obtain ⟨k', -, rfl⟩ := List.mem_map.mp hs'
    rcases eq_or_ne k k' with rfl | hne
    · rfl
    · exact set_comm (by simpa using hne) d
  rw [(hkeys.map c.setting).foldl_eq' hcomm]
  rfl

/-- Settings that pass their check, with counts of 64 bits and a prompt that a line can hold, are
read from every text in which all keys have been written, in any order. -/
theorem read_written (hcheck : c.check = .ok c) (hword : ∀ n, c.count n < Decimal.countBound)
    (hfeed : '\n' ∉ c.prompt) (hreturn : c.prompt.getLast? ≠ some '\r')
    (hkeys : keys.Perm Key.all) (h : Written c keys source) : read source = .ok c := by
  rw [read_eq_outcome (lines_linesOf source), outcome,
    (h.settles hword hfeed hreturn).assignAll_eq, foldl_set_of_perm hkeys]
  exact hcheck

/-- A prompt with blanks, `#` and `=`, the least and the greatest counts, both line ends, and a
comment with a carriage return of its own. -/
theorem read_written_odd :
    let c : Config :=
      { prompt := " #=\t".toList, historySize := 1, maxArguments := Decimal.countBound - 1, lineMax := 2 }
    c.check = .ok c ∧ (∀ n, c.count n < Decimal.countBound) ∧ '\n' ∉ c.prompt ∧
      c.prompt.getLast? ≠ some '\r' ∧
      ∃ keys source, keys.Perm Key.all ∧ Written c keys source ∧ read source = .ok c := by
  intro c
  have hcheck : c.check = .ok c := by decide
  have hword : ∀ n, c.count n < Decimal.countBound := by
    intro n
    cases n <;> decide
  have hfeed : '\n' ∉ c.prompt := by decide
  have hreturn : c.prompt.getLast? ≠ some '\r' := by decide
  have hnone : IsPad [] := by simp [IsPad]
  have htab : IsPad ['\t'] := by simp [IsPad]
  have hspaces : IsPad [' ', ' '] := by simp [IsPad]
  have hcomment : Skipped ([' ', ' '] ++ '#' :: " prompt=x\r".toList) := .comment hspaces.isBlank _
  have hkeys : [.count .lineMax, .prompt, .count .maxArguments, .count .historySize].Perm Key.all := by
    decide
  have hlines : Written c [.count .lineMax, .prompt, .count .maxArguments, .count .historySize] _ :=
    .skip hcomment (by decide) .feed <|
    .write (.count htab hspaces hspaces htab) .returnFeed <|
    .skip (.blank htab.isBlank) (by decide) .returnFeed <|
    .write (.prompt hspaces hnone) .returnFeed <|
    .write (.count hnone hnone hnone hnone) .feed <|
    .write (.count hnone htab htab hnone) .feed .nil
  exact ⟨hcheck, hword, hfeed, hreturn, _, _, hkeys, hlines,
    read_written hcheck hword hfeed hreturn hkeys hlines⟩

end LineShell.Config
