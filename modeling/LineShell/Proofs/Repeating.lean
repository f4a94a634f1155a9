import LineShell.Proofs.Listing
import LineShell.Proofs.Trailing

/-!
# Entering a line again

A history keeps a line without the line ends behind it. Lines that are kept alike name the same
directory (`targetOf?_of_kept_eq`) and are read alike (`parse_of_kept_eq`), since line ends are blanks
and separators. Only a command of the shell itself is asked for by its name and one line feed, and
by nothing else (`Builtin.ofLine?_eq_some_iff`).

`Session.executes_again` : so what was executed for a line is executed again for the text kept of
it and a line feed, unless this text is such a name. The line then had carriage returns behind the
name, and the program of this name was executed.
-/

namespace LineShell

variable {line line' ends : Text} {b : Builtin}

/-! ## Line ends -/

namespace History

theorem isBlank_of_isLineEnd (h : ∀ c ∈ ends, isLineEnd c = true) : Text.IsBlank ends := by
  intro c hc
  rcases isLineEnd_iff.mp (h c hc) with rfl | rfl <;> rfl

theorem isSeparator_of_mem_encode (h : ∀ c ∈ ends, isLineEnd c = true) :
    ∀ x ∈ Utf8.encode ends, isSeparator x = true := by
  intro x hx
  obtain ⟨c, hc, hx⟩ := List.mem_flatMap.mp hx
  rcases isLineEnd_iff.mp (h c hc) with rfl | rfl
  · obtain rfl : x = 0x0A := by simpa [String.utf8EncodeChar] using hx
    rfl
  · obtain rfl : x = 0x0D := by simpa [String.utf8EncodeChar] using hx
    rfl

end History

open History

/-! ## Lines that are kept alike -/

/-- No start of a line that ends with a space goes on in the line ends. -/
theorem prefix_append_iff (start : Text) (h : ∀ c ∈ ends, isLineEnd c = true) :
    start ++ [' '] <+: line ++ ends ↔ start ++ [' '] <+: line := by
  refine ⟨fun hp => ?_, fun hp => hp.trans (List.prefix_append _ _)⟩
  induction ends using List.reverseRecOn with
  | nil => rwa [List.append_nil] at hp
  | append_singleton ends c ih =>
    obtain ⟨hends, hc⟩ := List.forall_mem_append.mp h
    rw [← List.append_assoc, List.prefix_concat_iff] at hp
    rcases hp with heq | hp
    · obtain rfl : ' ' = c := by simpa using (List.append_inj' heq rfl).2
      simp [isLineEnd] at hc
    · exact ih hends hp

theorem targetOf?_append (line : Text) (h : ∀ c ∈ ends, isLineEnd c = true) :
    targetOf? (line ++ ends) = targetOf? line := by
  have hstart : "cd ".toList <+: line ++ ends ↔ "cd ".toList <+: line :=
    prefix_append_iff "cd".toList h
  by_cases hp : "cd ".toList <+: line
  · have hlen : 3 ≤ line.length := hp.length_le
    rw [targetOf?, targetOf?, if_pos (List.isPrefixOf_iff_prefix.mpr (hstart.mpr hp)),
      if_pos (List.isPrefixOf_iff_prefix.mpr hp), List.drop_append_of_le_length hlen,
      Text.trim_append_of_isBlank _ (isBlank_of_isLineEnd h)]
  · rw [targetOf?, targetOf?, if_neg (mt List.isPrefixOf_iff_prefix.mp hp), if_neg]
    exact mt (fun hline => hstart.mp (List.isPrefixOf_iff_prefix.mp hline)) hp

/-- What does not depend on line ends behind a line depends on what is kept of it. -/
theorem eq_of_kept_eq {α : Type} {g : Text → α}
    (hg : ∀ t ends, (∀ c ∈ ends, isLineEnd c = true) → g (t ++ ends) = g t)
    (h : kept line' = kept line) : g line' = g line := by
  obtain ⟨ends, heq, hends, -⟩ := kept_spec line
  obtain ⟨ends', heq', hends', -⟩ := kept_spec line'
  rw [heq, heq', h, hg _ ends hends, hg _ ends' hends']

theorem targetOf?_of_kept_eq (h : kept line' = kept line) : targetOf? line' = targetOf? line :=
  eq_of_kept_eq (fun t _ hends => targetOf?_append t hends) h

theorem tokenize_of_kept_eq (h : kept line' = kept line) :
    tokenize (Utf8.encode line') = tokenize (Utf8.encode line) := by
  refine eq_of_kept_eq (g := fun t => tokenize (Utf8.encode t)) (fun t ends hends => ?_) h
  rw [Utf8.encode_append, tokenize_append _ (isSeparator_of_mem_encode hends)]

/-- Lines that are kept alike are read alike, but for a position at their end. -/
theorem parse_of_kept_eq (limit : Nat) (h : kept line' = kept line) :
    parse limit (Utf8.encode line') = (parse limit (Utf8.encode line)).mapError
      (SyntaxError.moved (Utf8.encode line).length (Utf8.encode line').length) :=
  parse_of_tokenize_eq limit (tokenize_of_kept_eq h)

namespace Builtin

/-- The word that asks for a command of the shell. -/
def name : Builtin → Text
  | .history => "history".toList
  | .exit => "exit".toList

theorem line_eq (b : Builtin) : b.line = b.name ++ ['\n'] := by
  cases b <;> rfl

@[simp]
theorem kept_name (b : Builtin) : kept b.name = b.name := by
  cases b <;> rfl

theorem ofLine?_eq_some_iff : ofLine? line = some b ↔ line = b.name ++ ['\n'] := by
  rw [← line_eq]
  constructor
  · intro h
    have hfound := List.find?_some h
    simpa [eq_comm] using hfound
  · rintro rfl
    exact ofLine?_line b

/-- A line that is kept as another text asks for no command of the shell. -/
theorem ofLine?_eq_none (h : ∀ b : Builtin, kept line ≠ b.name) : ofLine? line = none := by
  refine Option.eq_none_iff_forall_ne_some.mpr fun b hb => h b ?_
  rw [ofLine?_eq_some_iff.mp hb, kept_append _ (by simp [isLineEnd]), kept_name]

end Builtin

/-! ## What is executed -/

theorem Account.commandOf?_eq (config : Config) (line : Text) : Account.commandOf? config line =
    if targetOf? line = none ∧ Builtin.ofLine? line = none then
      (parse config.maxArguments (Utf8.encode line)).toOption
    else none := by
  have hne : exitLine ≠ historyLine := by decide
  rw [commandOf?, ofLine?_eq]
  by_cases hh : line = historyLine
  · simp [hh]
  by_cases he : line = exitLine
  · simp [he, hne]
  · simp [hh, he]

theorem Account.commandOf?_eq_some_iff {config : Config} {c : Command} :
    Account.commandOf? config line = some c ↔ targetOf? line = none ∧ Builtin.ofLine? line = none ∧
      parse config.maxArguments (Utf8.encode line) = .ok c := by
  rw [commandOf?_eq]
  rcases parse config.maxArguments (Utf8.encode line) with e | c' <;>
    simp [Except.toOption, and_assoc]

/-- Lines that are kept alike have the same command executed, unless they are kept as the name of a
command of the shell. -/
theorem Account.commandOf?_of_kept_eq (config : Config) (h : kept line' = kept line)
    (hno : ∀ b : Builtin, kept line ≠ b.name) :
    Account.commandOf? config line' = Account.commandOf? config line := by
  rw [commandOf?_eq, commandOf?_eq, Builtin.ofLine?_eq_none hno,
    Builtin.ofLine?_eq_none (by rwa [h]), targetOf?_of_kept_eq h, parse_of_kept_eq _ h]
  rcases parse config.maxArguments (Utf8.encode line) with e | c <;> rfl

/-- A line that is read is kept without the carriage returns in front of its line feed. -/
theorem exists_kept_of_readLine {lineMax : Nat} {input rest : Bytes}
    (h : readLine lineMax input = some (line, rest)) :
    '\n' ∉ kept line ∧ ∃ n, line = kept line ++ List.replicate n '\r' ++ ['\n'] := by
  obtain ⟨t, rfl, ht⟩ := exists_of_readLine h
  obtain ⟨ends, heq, hends, -⟩ := kept_spec t
  have hreturns : ∀ c ∈ ends, c = '\r' := fun c hc =>
    (isLineEnd_iff.mp (hends c hc)).resolve_left fun hfeed =>
      ht (heq ▸ List.mem_append_right _ (hfeed ▸ hc))
  rw [kept_append t (by simp [isLineEnd])]
  refine ⟨fun hmem => ht (mem_of_mem_kept hmem), ends.length, ?_⟩
  rw [← List.eq_replicate_of_mem hreturns, ← heq]

/-- The word of a command of the shell, with line ends behind it, is read as a program of that
name. -/
theorem eq_exec_of_kept_eq_name {limit : Nat} {c : Command} (h : kept line = b.name)
    (hc : parse limit (Utf8.encode line) = .ok c) : c = .exec [Utf8.encode b.name] := by
  have htokens : tokenize (Utf8.encode line) = tokenize (Utf8.encode b.name) :=
    tokenize_of_kept_eq (by rw [h, Builtin.kept_name])
  have hword : Grammar.commandOf (tokenize (Utf8.encode b.name)) = .exec [Utf8.encode b.name] := by
    cases b <;> decide +kernel
  have hline := Grammar.line_outcome limit (Cursor.ofLine (Utf8.encode line))
  unfold parse at hc
  rcases hr : Parser.line limit (Cursor.ofLine (Utf8.encode line)) with ⟨e | r, d⟩ <;>
    rw [hr] at hc hline <;> cases hc
  obtain ⟨-, rfl, -⟩ := hline
  rw [← hword, ← htokens]
  rfl

namespace Session

variable {ω : Type} {host : Host ω} {s : Session (Recorder × ω)} {c : Command}

/-- For the line `line`, a session with the settings `config` has the commands `cs` executed, and
no others. -/
def Executes (config : Config) (line : Text) (cs : List Command) : Prop :=
  ∀ (ω : Type) (host : Host ω) (s : Session (Recorder × ω)), s.config = config →
    (s.handle host.recording line).2.world.1.commands = s.world.1.commands ++ cs

theorem executes_commandOf? (config : Config) (line : Text) :
    Executes config line (Account.commandOf? config line).toList := by
  rintro ω host s rfl
  exact commands_handle host line s

theorem commandOf?_of_commands (h : (s.handle host.recording line).2.world.1.commands =
    s.world.1.commands ++ [c]) : Account.commandOf? s.config line = some c := by
  rw [commands_handle, List.append_cancel_left_eq] at h
  cases hc : Account.commandOf? s.config line <;> rw [hc] at h <;> simp_all

/-- A line that was read and had a command executed is kept as a text, without carriage returns
that stood behind it. The text and a line feed have the same command executed, unless the text is
the name of a command of the shell : then there was a carriage return, the command was the program
of that name, and nothing is executed. Read from an input, this is the same line, if it is not too
long.

Lines that are kept alike name the same directory, and are read alike but for a position at their
end. If they are not kept as a name, neither asks for a command of the shell, for which it takes the
name and one line feed. -/
theorem executes_again (host : Host ω) {s : Session (Recorder × ω)} {lines : List Text}
    (hh : s.history.Holds lines) :
    (∀ (input rest : Bytes) (line : Text) (c : Command),
      readLine s.config.lineMax input = some (line, rest) →
      (s.handle host.recording line).2.world.1.commands = s.world.1.commands ++ [c] →
      ∃ text n,
        (s.handle host.recording line).2.history.last? = some ⟨lines.length + 1, text⟩ ∧
        line = text ++ List.replicate n '\r' ++ ['\n'] ∧
        ((∀ b : Builtin, text ≠ b.name) → Executes s.config (text ++ ['\n']) [c]) ∧
        (∀ b : Builtin, text = b.name →
          0 < n ∧ c = .exec [Utf8.encode text] ∧ Executes s.config (text ++ ['\n']) []) ∧
        ((Utf8.encode text).length ≤ s.config.lineMax - 2 → ∀ more,
          readLine s.config.lineMax (Utf8.encode (text ++ ['\n']) ++ more) =
            some (text ++ ['\n'], more))) ∧
    ∀ line line' : Text, kept line' = kept line →
      directoryOfLine? line' = directoryOfLine? line ∧
      (∀ limit, parse limit (Utf8.encode line') = (parse limit (Utf8.encode line)).mapError
        (SyntaxError.moved (Utf8.encode line).length (Utf8.encode line').length)) ∧
      ((∀ b : Builtin, kept line ≠ b.name) →
        Builtin.ofLine? line' = none ∧ Builtin.ofLine? line = none) ∧
      ∀ b : Builtin, Builtin.ofLine? line = some b ↔ line = b.name ++ ['\n'] := by
  refine ⟨fun input rest line c hr hc => ?_, fun line line' hkept => ⟨?_, fun limit => ?_, ?_, ?_⟩⟩
  · have hcommand := commandOf?_of_commands hc
    obtain ⟨htarget, hbuiltin, hparse⟩ := Account.commandOf?_eq_some_iff.mp hcommand
    obtain ⟨hnot, n, hline⟩ := exists_kept_of_readLine hr
    have hagain := executes_commandOf? s.config (kept line ++ ['\n'])
    refine ⟨kept line, n, ?_, hline, fun hno => ?_, fun b hb => ⟨?_, ?_, ?_⟩,
      fun hlen more => readLine_encode hnot hlen more⟩
    · rw [(handle_submitted host.recording line s).1.history, htarget]
      exact hh.last?_append line
    · have hkept : kept (kept line ++ ['\n']) = kept line := by
        rw [kept_append _ (by simp [isLineEnd]), kept_kept]
      rwa [Account.commandOf?_of_kept_eq _ hkept hno, hcommand] at hagain
    · -- without a carriage return the line would have asked for the command of the shell
      refine Nat.pos_of_ne_zero fun hzero => ?_
      rw [hzero, hb, List.replicate_zero, List.append_nil] at hline
      rw [Builtin.ofLine?_eq_some_iff.mpr hline] at hbuiltin
      cases hbuiltin
    · rw [hb]
      exact eq_exec_of_kept_eq_name hb hparse
    · have hshell : Builtin.ofLine? (kept line ++ ['\n']) = some b :=
        Builtin.ofLine?_eq_some_iff.mpr (by rw [hb])
      rw [Account.commandOf?_eq, hshell] at hagain
      simpa using hagain
  · rw [directoryOfLine?_eq, directoryOfLine?_eq, targetOf?_of_kept_eq hkept]
  · exact parse_of_kept_eq limit hkept
  · intro hno
    exact ⟨Builtin.ofLine?_eq_none (by rwa [hkept]), Builtin.ofLine?_eq_none hno⟩
  · exact fun b => Builtin.ofLine?_eq_some_iff

/-- A pipe with a blank and a carriage return behind it. -/
theorem executes_again_returned : ∃ s : Session (Recorder × Text),
    start? {} ({}, ['a']) = some s ∧ s.history.Holds [] ∧
    readLine s.config.lineMax (Utf8.ofString "echo a | wc \r\nls\n") =
      some ("echo a | wc \r\n".toList, Utf8.ofString "ls\n") ∧
    (s.handle narrowHost.recording "echo a | wc \r\n".toList).2.history.last? =
      some ⟨1, "echo a | wc ".toList⟩ ∧
    Executes s.config "echo a | wc \n".toList
      [.pipe (.exec [Utf8.ofString "echo", Utf8.ofString "a"]) (.exec [Utf8.ofString "wc"])] := by
  have hh : (empty 50).Holds [] := holds_empty 50
  have hread : readLine 100 (Utf8.ofString "echo a | wc \r\nls\n") =
      some ("echo a | wc \r\n".toList, Utf8.ofString "ls\n") := by decide +kernel
  obtain ⟨text, n, hlast, -, hagain, -⟩ := (executes_again narrowHost
    (s := ⟨{}, empty 50, ({}, ['a']), {}⟩) hh).1 _ _ "echo a | wc \r\n".toList
    (.pipe (.exec [Utf8.ofString "echo", Utf8.ofString "a"]) (.exec [Utf8.ofString "wc"]))
    hread (by decide +kernel)
  have hkept := hlast.symm.trans (show _ = some ⟨1, "echo a | wc ".toList⟩ by decide +kernel)
  obtain rfl : text = "echo a | wc ".toList := by simpa using hkept
  exact ⟨_, rfl, hh, hread, hlast, hagain fun b => by cases b <;> decide⟩

/-- The word `exit` with a carriage return and a line feed is executed. It is kept as the word, which
with a line feed ends the session, and is not executed. A command that is missing at the end of a
line is reported a byte further on if there is a carriage return. Two bytes that are no text are
kept as two replacements, of which the second is cut off when they are read. -/
theorem not_executed_again : ∃ s : Session (Recorder × Text),
    start? {} ({}, ['a']) = some s ∧
    readLine s.config.lineMax (Utf8.ofString "exit\r\n") = some ("exit\r\n".toList, []) ∧
    let s' := (s.handle narrowHost.recording "exit\r\n".toList).2
    s'.world.1.commands = [.exec [Utf8.ofString "exit"]] ∧
    s'.history.last? = some ⟨1, "exit".toList⟩ ∧
    (s'.handle narrowHost.recording "exit\n".toList).1 = .ok .exit ∧
    (s'.handle narrowHost.recording "exit\n".toList).2.world.1.commands =
      [.exec [Utf8.ofString "exit"]] ∧
    parse 10 (Utf8.ofString "ls |\r\n") = .error (.missingCommand 6) ∧
    parse 10 (Utf8.ofString "ls |\n") = .error (.missingCommand 5) ∧
    readLine 5 [0xFF, 0x20, 0xFF] = some ("\uFFFD \uFFFD\n".toList, []) ∧
    readLine 5 (Utf8.encode "\uFFFD \uFFFD\n".toList) = some ("\uFFFD\n".toList, []) :=
  ⟨_, rfl, by decide +kernel, by decide +kernel⟩

end Session

end LineShell
