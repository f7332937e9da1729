/-
JSON reports: objects keep the order of their fields, nested values are
indented by two spaces, and only what has to be escaped is.
-/
import TsoBridge.Text.Numeral

namespace TsoBridge

open Text

/-- A JSON value. -/
inductive Json where
  | null
  | bool (value : Bool)
  | number (value : Int)
  | text (value : String)
  | array (items : List Json)
  | object (fields : List (String × Json))

namespace Json

/-- The quotation mark. -/
def quote : Char := Char.ofNat 34

/-- The backslash. -/
def backslash : Char := Char.ofNat 92

/-- The control characters with a letter of their own. -/
def shortEscapes : List (Nat × Char) :=
  [(8, 'b'), (9, 't'), (10, 'n'), (12, 'f'), (13, 'r')]

/-- A character inside a string. -/
def escape (c : Char) : List Char :=
  if c == quote || c == backslash then [backslash, c]
  else match shortEscapes.lookup c.toNat with
    | some letter => [backslash, letter]
    | none =>
      if c.toNat < 32 then [backslash, 'u'] ++ padLeft 4 '0' (Nat.toDigits 16 c.toNat) else [c]

/-- A string with its quotes. -/
def quoted (s : String) : String :=
  String.ofList ([quote] ++ s.toList.flatMap escape ++ [quote])

/-- The spaces in front of a line at some depth. -/
def indent (depth : Nat) : String :=
  String.ofList (List.replicate (2 * depth) ' ')

/-- Items one on each line between two brackets; the brackets alone
without items. -/
def block (opening closing : String) (depth : Nat) (items : List String) : String :=
  if items.isEmpty then opening ++ closing
  else
    let rows := items.map fun item => indent (depth + 1) ++ item
    opening ++ "\n" ++ ",\n".intercalate rows ++ "\n" ++ indent depth ++ closing

mutual

/-- A value whose first line stands at some depth. -/
def render (depth : Nat) : Json → String
  | .null => "null"
  | .bool true => "true"
  | .bool false => "false"
  | .number value => signedDecimal value
  | .text value => quoted value
  | .array items => block "[" "]" depth (renderItems (depth + 1) items)
  | .object fields => block "\x7b" "\x7d" depth (renderFields (depth + 1) fields)

/-- The items of an array. -/
def renderItems (depth : Nat) : List Json → List String
  | [] => []
  | item :: rest => render depth item :: renderItems depth rest

/-- The fields of an object. -/
def renderFields (depth : Nat) : List (String × Json) → List String
  | [] => []
  | (key, value) :: rest =>
    (quoted key ++ ": " ++ render depth value) :: renderFields depth rest

end

/-- An array of strings. -/
def texts (lines : List String) : Json :=
  .array (lines.map .text)

/-- A field that is left out without a value. -/
def field? (key : String) (value : Option Json) : List (String × Json) :=
  match value with
  | some value => [(key, value)]
  | none => []

/-- A field that is left out if the list is empty. -/
def textsField? (key : String) (lines : List String) : List (String × Json) :=
  if lines.isEmpty then [] else [(key, texts lines)]

end Json
end TsoBridge
