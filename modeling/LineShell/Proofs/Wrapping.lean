import LineShell.Command

/-!
# Redirections on and off

`Command.unwrap` takes the redirections off a command and `Command.wrap` puts them on. Each undoes
the other : `wrap_unwrap` for every command, and `unwrap_wrap_eq_iff` for exactly the commands that
are no redirection. The programs and pipes of a command are those of the command inside.

`Command.peel` takes the redirections off one after the other, the outermost first, and turns their
list round in the end. `Command.gather` puts the programs behind those found before. Both are what
is said by recursion on the command (`peel_eq`, `gather_eq`).
-/

namespace LineShell.Command

variable {c : Command}

/-! ## One undoes the other -/

theorem isRedirect_unwrap (c : Command) : c.unwrap.1.isRedirect = false := by
  induction c with
  | exec argv => rfl
  | redirect target r ih => exact ih
  | pipe left right => rfl

theorem unwrap_of_isRedirect_eq_false (h : c.isRedirect = false) : c.unwrap = (c, []) := by
  cases c with
  | exec argv => rfl
  | redirect target r => cases h
  | pipe left right => rfl

/-- Nothing is left to take off once the redirections are off. -/
theorem unwrap_unwrap (c : Command) : c.unwrap.1.unwrap = (c.unwrap.1, []) :=
  unwrap_of_isRedirect_eq_false c.isRedirect_unwrap

theorem wrap_unwrap (c : Command) : c.unwrap.1.wrap c.unwrap.2 = c := by
  induction c with
  | exec argv => rfl
  | redirect target r ih => rw [unwrap, wrap_concat, ih]
  | pipe left right => rfl

/-- Redirections that are put on come off behind those of the command. -/
theorem unwrap_wrap (c : Command) (rs : List Redirection) :
    (c.wrap rs).unwrap = (c.unwrap.1, c.unwrap.2 ++ rs) := by
  induction rs generalizing c with
  | nil => rw [wrap_nil, List.append_nil]
  | cons r rs ih =>
    have hone := ih (.redirect c r)
    rw [unwrap, List.append_assoc] at hone
    exact hone

theorem unwrap_wrap_eq_iff (c : Command) (rs : List Redirection) :
    (c.wrap rs).unwrap = (c, rs) ↔ c.isRedirect = false := by
  rw [unwrap_wrap]
  constructor
  · intro h
    have hinner : c.unwrap.1 = c := congrArg Prod.fst h
    rw [← hinner]
    exact c.isRedirect_unwrap
  · intro h
    rw [unwrap_of_isRedirect_eq_false h, List.nil_append]

/-! ## Programs and pipes -/

theorem pipeCount_unwrap (c : Command) : c.unwrap.1.pipeCount = c.pipeCount := by
  induction c with
  | exec argv => rfl
  | redirect target r ih => exact ih
  | pipe left right => rfl

theorem leaves_unwrap (c : Command) : c.unwrap.1.leaves = c.leaves := by
  induction c with
  | exec argv => rfl
  | redirect target r ih => exact ih
  | pipe left right => rfl

/-- A pipe joins two commands to one. -/
theorem length_leaves (c : Command) : c.leaves.length = c.pipeCount + 1 := by
  induction c with
  | exec argv => rfl
  | redirect target r ih => exact ih
  | pipe left right ihl ihr =>
    rw [leaves, pipeCount, List.length_append, ihl, ihr]
    omega

/-! ## One after the other -/

/-- Take the redirections off from outside, behind those taken off before. The last one taken off is
the innermost. -/
def peel (taken : List Redirection) : Command → Command × List Redirection
  | .redirect target r => target.peel (taken ++ [r])
  | c => (c, taken.reverse)

/-- The argument lists of the programs, from left to right, behind those found before. -/
def gather (found : List (List Bytes)) : Command → List (List Bytes)
  | .exec argv => found ++ [argv]
  | .redirect target _ => target.gather found
  | .pipe left right => right.gather (left.gather found)

theorem peel_eq (taken : List Redirection) (c : Command) :
    c.peel taken = (c.unwrap.1, c.unwrap.2 ++ taken.reverse) := by
  induction c generalizing taken with
  | exec argv => rfl
  | redirect target r ih =>
    rw [peel, ih, unwrap, List.reverse_append, List.append_assoc]
    rfl
  | pipe left right => rfl

theorem gather_eq (found : List (List Bytes)) (c : Command) :
    c.gather found = found ++ c.leaves := by
  induction c generalizing found with
  | exec argv => rfl
  | redirect target r ih => exact ih found
  | pipe left right ihl ihr => rw [gather, ihl, ihr, leaves, List.append_assoc]

/-- The command inside the redirections is none itself, and with the redirections that were taken off
put on again it is the command it was taken from. What is taken off a command that was given
redirections is this command and these redirections if it is no redirection, and only then. Inside
are the same programs and as many pipes. A command has one program more than pipes, and the programs
of a pipe are those of its left side and behind them those of its right side. The loops `peel` and
`gather`, which start with nothing, find the same. -/
theorem unwrap_inverts_wrap (c : Command) :
    (c.unwrap.1.isRedirect = false ∧ c.unwrap.1.wrap c.unwrap.2 = c) ∧
    (∀ rs, (c.wrap rs).unwrap = (c, rs) ↔ c.isRedirect = false) ∧
    (c.unwrap.1.leaves = c.leaves ∧ c.unwrap.1.pipeCount = c.pipeCount) ∧
    c.leaves.length = c.pipeCount + 1 ∧
    (∀ d : Command, (c.pipe d).leaves = c.leaves ++ d.leaves) ∧
    c.peel [] = c.unwrap ∧ c.gather [] = c.leaves := by
  refine ⟨⟨c.isRedirect_unwrap, c.wrap_unwrap⟩, c.unwrap_wrap_eq_iff,
    ⟨c.leaves_unwrap, c.pipeCount_unwrap⟩, c.length_leaves, fun d => rfl, ?_, ?_⟩
  · rw [peel_eq, List.reverse_nil, List.append_nil]
  · rw [gather_eq, List.nil_append]

/-- Three redirections of one descriptor, two of them alike, around a pipe with one on its left side. -/
example :
    let f : Redirection := ⟨.output, [0x66], 1⟩
    let g : Redirection := ⟨.output, [0x67], 1⟩
    let inner : Command := .pipe (.redirect (.exec [[0x61]]) f) (.exec [])
    (inner.wrap [f, g, f]).peel [] = (inner, [f, g, f]) ∧ inner.gather [] = [[[0x61]], []] := by
  decide

end LineShell.Command
