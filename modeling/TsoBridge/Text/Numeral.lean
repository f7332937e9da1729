/-
Numerals: how numbers are written in messages, names and control blocks,
and how they are read in settings and scripts.
-/

namespace TsoBridge.Text

-- ============================================================== writing

/-- `cs` filled up on the left to at least `width` characters. -/
def padLeft (width : Nat) (fill : Char) (cs : List Char) : List Char :=
  List.replicate (width - cs.length) fill ++ cs

/-- `s` filled up on the right with spaces to at least `width`
characters. -/
def padRight (width : Nat) (s : String) : String :=
  String.ofList (s.toList ++ List.replicate (width - s.toList.length) ' ')

/-- Decimal digits, at least `width` of them. -/
def decimalOf (width n : Nat) : String :=
  String.ofList (padLeft width '0' (Nat.toDigits 10 n))

/-- Decimal digits, no more than needed. -/
def decimal (n : Nat) : String :=
  decimalOf 1 n

/-- A signed decimal: a minus sign in front of a negative number. -/
def signedDecimal (i : Int) : String :=
  match i with
  | .ofNat n => decimal n
  | .negSucc n => "-" ++ decimal (n + 1)

/-- Hexadecimal digits in lower case, at least `width` of them, after
`0x`. -/
def hexOf (width n : Nat) : String :=
  "0x" ++ String.ofList (padLeft width '0' (Nat.toDigits 16 n))

/-- Hexadecimal digits in upper case, at least `width` of them. -/
def bareHexOf (width n : Nat) : String :=
  String.ofList ((padLeft width '0' (Nat.toDigits 16 n)).map Char.toUpper)

-- ============================================================== reading

/-- The value of a run of decimal digits. -/
def digitsValue (cs : List Char) : Nat :=
  cs.foldl (fun n c => n * 10 + (c.toNat - '0'.toNat)) 0

/-- A non-empty run of decimal digits. -/
def natural? (cs : List Char) : Option Nat :=
  if cs.isEmpty || !cs.all Char.isDigit then none else some (digitsValue cs)

/-- A number that fits a signed doubleword: digits with at most one sign
in front. -/
def integer? (s : String) : Option Int :=
  let value := match s.toList with
    | '-' :: digits => (natural? digits).map fun n => -(n : Int)
    | '+' :: digits => (natural? digits).map fun n => (n : Int)
    | digits => (natural? digits).map fun n => (n : Int)
  value.filter fun i => -0x8000000000000000 ≤ i && i < 0x8000000000000000

end TsoBridge.Text
