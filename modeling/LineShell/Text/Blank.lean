import LineShell.Text

/-!
# Blanks

The characters with the Unicode property `White_Space`, and the cutting of blanks
off the ends of a text.
-/

namespace LineShell.Text

/-- The characters with the property `White_Space`. -/
def isBlank (c : Char) : Bool :=
  (0x9 ≤ c.val && c.val ≤ 0xD) || c.val = 0x20 || c.val = 0x85 || c.val = 0xA0
    || c.val = 0x1680 || (0x2000 ≤ c.val && c.val ≤ 0x200A) || c.val = 0x2028
    || c.val = 0x2029 || c.val = 0x202F || c.val = 0x205F || c.val = 0x3000

/-- `t` without the blanks at its start. -/
def trimStart (t : Text) : Text := t.dropWhile isBlank

/-- `t` without the blanks at its end. -/
def trimEnd (t : Text) : Text := dropEndWhile isBlank t

/-- `t` without the blanks at both ends. -/
def trim (t : Text) : Text := trimWhile isBlank t

end LineShell.Text
