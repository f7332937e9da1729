/-
Cutting sequences at separators: a text into lines, a list of verbs at
its commas, a byte stream at its line ends. `split` keeps every part,
empty ones too; `cut` stops at the first separator.
-/

namespace TsoBridge.Text

variable {α : Type}

/-- The parts of a sequence between the elements that satisfy `sep`.
There is always at least one part. -/
def split (sep : α → Bool) : List α → List (List α)
  | [] => [[]]
  | x :: xs =>
    if sep x then [] :: split sep xs
    else match split sep xs with
      | [] => [[x]]
      | part :: parts => (x :: part) :: parts

/-- What stands before and after the first element that satisfies
`sep`. -/
def cut (sep : α → Bool) (xs : List α) : Option (List α × List α) :=
  match xs.dropWhile (!sep ·) with
  | [] => none
  | _ :: rest => some (xs.takeWhile (!sep ·), rest)

/-- A line without the carriage return that stood before its line
feed. -/
def chopReturn (line : List Char) : List Char :=
  if line.getLast? = some '\r' then line.dropLast else line

/-- The lines of a text. A line ends with a line feed, or a carriage
return and a line feed; what follows the last line feed is a line of its
own unless it is empty. -/
def lines (s : String) : List String :=
  let parts := split (· == '\n') s.toList
  let final := parts.getLast?.getD []
  let ended := parts.dropLast.map fun line => String.ofList (chopReturn line)
  if final.isEmpty then ended else ended ++ [String.ofList final]

end TsoBridge.Text
