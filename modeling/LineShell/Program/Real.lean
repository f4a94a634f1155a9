import LineShell.Program.Line
import LineShell.Text.Decimal

/-!
# Numbers with a point

`Pointed` is a number in decimal digits, as it stands at the start of a text, and `Real` one
that may have an exponent too. Both are exact. `Real.fixed`, `Real.scientific` and
`Real.general` write a number with so many digits, a half to the even neighbour.
-/

namespace LineShell.Program

/-- A number in decimal digits: its sign, the digits before the point, and those behind. -/
structure Pointed where
  negative : Bool
  whole : Bytes
  part : Bytes

/-- The number at the start of a text. -/
def Pointed.read (text : Bytes) : Pointed :=
  let text := text.dropWhile ByteClass.isBlank
  let (negative, text) := match text with
    | 0x2D :: rest => (true, rest)
    | text => (false, text)
  let whole := text.takeWhile ByteClass.isDigit
  let part := match text.drop whole.length with
    | 0x2E :: rest => rest.takeWhile ByteClass.isDigit
    | _ => []
  ⟨negative, whole, part⟩

/-- The number in units of `10 ^ -places`. -/
def Pointed.scaled (d : Pointed) (places : Nat) : Int :=
  let n := ByteClass.decimalValue (d.whole ++ d.part) * Nat.pow 10 (places - d.part.length)
  if d.negative then -(n : Int) else n

/-- The order of two numbers. -/
def Pointed.compare (a b : Pointed) : Ordering :=
  let places := max a.part.length b.part.length
  Ord.compare (a.scaled places) (b.scaled places)

/-- A number with an exponent, or what stands for one. -/
inductive Real where
  | none
  | notNumber
  | infinite (negative : Bool)
  /-- The number `value * 10 ^ exponent`. -/
  | finite (value exponent : Int)

/-- The number at the start of a text. -/
def Real.read (text : Bytes) : Real :=
  let text := text.dropWhile ByteClass.isSpace
  let (negative, text) := match text with
    | 0x2D :: rest => (true, rest)
    | 0x2B :: rest => (false, rest)
    | text => (false, text)
  let letters := (text.take 3).map ByteClass.lower
  if letters = lit "inf" then .infinite negative
  else if letters = lit "nan" then .notNumber
  else
    let signed (n : Nat) : Int := if negative then -(n : Int) else n
    match text with
    | 0x30 :: x :: h :: rest =>
      if (x = 0x78 || x = 0x58) && ByteClass.isHex h then
        .finite (signed (ByteClass.hexValue ((h :: rest).takeWhile ByteClass.isHex))) 0
      else decimal signed text
    | _ => decimal signed text
where
  /-- The number in decimal digits. -/
  decimal (signed : Nat → Int) (text : Bytes) : Real :=
    let d := Pointed.read (0x2D :: text)
    let rest := text.drop (d.whole.length + (if d.part.isEmpty then 0 else d.part.length + 1))
    let exponent : Int := match rest with
      | e :: rest =>
        if ByteClass.lower e != 0x65 then 0
        else
          let (down, rest) := match rest with
            | 0x2D :: rest => (true, rest)
            | 0x2B :: rest => (false, rest)
            | rest => (false, rest)
          let n := min 5000 (ByteClass.decimalValue (rest.takeWhile ByteClass.isDigit))
          if down then -(n : Int) else n
      | [] => 0
    if d.whole.isEmpty && d.part.isEmpty then .none
    else .finite (signed (ByteClass.decimalValue (d.whole ++ d.part))) (exponent - d.part.length)

/-- The rank of a kind of number. -/
def Real.rank : Real → Nat
  | .none => 0
  | .notNumber => 1
  | .infinite true => 2
  | .finite .. => 3
  | .infinite false => 4

/-- The order of two numbers. -/
def Real.compare : Real → Real → Ordering
  | .finite a m, .finite b n =>
    let least := min m n
    Ord.compare (a * Nat.pow 10 (m - least).toNat) (b * Nat.pow 10 (n - least).toNat)
  | a, b => Ord.compare a.rank b.rank

/-! ## Writing -/

/-- The quotient of two numbers, rounded to the nearest, and a half to the even neighbour. -/
def roundDiv (n d : Nat) : Nat :=
  let q := n / d
  let r := 2 * (n % d)
  if r < d then q else if d < r then q + 1 else q + q % 2

/-- A size times a power of ten, rounded. -/
def scaleSize (n : Nat) (exponent : Int) : Nat :=
  if 0 ≤ exponent then n * Nat.pow 10 exponent.toNat else roundDiv n (Nat.pow 10 (-exponent).toNat)

/-- Pointed digits of a number, at least so many. -/
def paddedDigits (least n : Nat) : Bytes :=
  let ds := Utf8.encode (Decimal.ofNat n)
  List.replicate (least - ds.length) 0x30 ++ ds

/-- A size with so many places behind the point. -/
def fixedSize (places n : Nat) (exponent : Int) : Bytes :=
  let ds := paddedDigits (places + 1) (scaleSize n (exponent + places))
  let whole := ds.take (ds.length - places)
  if places = 0 then whole else whole ++ lit "." ++ ds.drop whole.length

/-- The first digits of a size, `places + 1` in number, and the power of ten of the first. -/
def leadingDigits (places n : Nat) (exponent : Int) : Nat × Int :=
  if n = 0 then (0, 0)
  else
    let first : Int := (Decimal.ofNat n).length - 1 + exponent
    let r := scaleSize n (exponent + places - first)
    if r = Nat.pow 10 (places + 1) then (r / 10, first + 1) else (r, first)

/-- A size with one digit before the point, so many behind it, and an exponent. -/
def scientificSize (places n : Nat) (exponent : Int) : Bytes :=
  let (r, power) := leadingDigits places n exponent
  let ds := paddedDigits (places + 1) r
  ds.take 1 ++ (if places = 0 then [] else lit "." ++ ds.drop 1) ++ lit "e"
    ++ lit (if power < 0 then "-" else "+") ++ paddedDigits 2 power.natAbs

/-- A text of digits without zeros at the end of the part behind the point. -/
def withoutZeros (text : Bytes) : Bytes :=
  if !text.contains 0x2E then text
  else
    let cut := Text.dropEndWhile (· = 0x30) text
    Text.dropEndWhile (· = 0x2E) cut

/-- A size with so many digits that count, in the shorter form of the two. -/
def generalSize (digits n : Nat) (exponent : Int) : Bytes :=
  let p := max digits 1
  let power := (leadingDigits (p - 1) n exponent).2
  if power < p && -4 ≤ power then withoutZeros (fixedSize (p - 1 - power).toNat n exponent)
  else
    let text := scientificSize (p - 1) n exponent
    let front := text.takeWhile (· != 0x65)
    withoutZeros front ++ text.drop front.length

/-- A number in the form of a letter: `f`, `e` or `g`. -/
def Real.write (letter : UInt8) (precision : Nat) (r : Real) : Bytes :=
  match r with
  | .none => lit "0"
  | .notNumber => lit "nan"
  | .infinite _ => lit "inf"
  | .finite v e =>
    let small := ByteClass.lower letter
    let text := if small = 0x66 then fixedSize precision v.natAbs e
      else if small = 0x65 then scientificSize precision v.natAbs e
      else generalSize precision v.natAbs e
    if letter = small then text else text.map ByteClass.upper

/-- The number is below zero. -/
def Real.isNegative : Real → Bool
  | .infinite negative => negative
  | .finite v _ => v < 0
  | _ => false

end LineShell.Program
