import LineShell.Program.ByteClass

/-!
# Lines of bytes

A line ends with a line feed, or with another byte that a program is told to take. The
last line of a text may lack it. Lines are compared byte by byte.
-/

namespace LineShell.Program

/-- The lines of a text, each with the byte that ends it. The last line may lack it. -/
def linesOf (ending : UInt8) (data : Bytes) : List Bytes :=
  let (part, whole) := data.foldl (fun (line, lines) b =>
    if b = ending then ([], (b :: line).reverse :: lines) else (b :: line, lines)) ([], [])
  (if part.isEmpty then whole else part.reverse :: whole).reverse

/-- A line without the byte that ends it. -/
def chomp (ending : UInt8) (line : Bytes) : Bytes :=
  if line.getLast? = some ending then line.dropLast else line

/-- The parts of a text between the places where a byte stands. -/
def partsOf (separator : UInt8) (text : Bytes) : List Bytes :=
  (text.foldr (fun b (part, parts) =>
    if b = separator then ([], part :: parts) else (b :: part, parts))
    (([] : Bytes), ([] : List Bytes))) |> fun (part, parts) => part :: parts

/-- The order of byte strings. -/
def compareBytes : Bytes → Bytes → Ordering
  | [], [] => .eq
  | [], _ :: _ => .lt
  | _ :: _, [] => .gt
  | a :: as, b :: bs => (compare a b).then (compareBytes as bs)

/-- A text flush to the right in a column. -/
def padLeft (width : Nat) (text : Bytes) : Bytes :=
  List.replicate (width - text.length) 0x20 ++ text

end LineShell.Program
