/-
Tokens of a command line. Blanks, tabs and commas separate tokens where
they stand outside quotes and outside parentheses; nothing else does, and
no other character is lost. A quote is closed by the same quote or by the
end of the text, and a closing parenthesis without an opening one counts
for nothing.
-/

namespace TsoBridge.Token

/-- The apostrophe. -/
def apostrophe : Char := Char.ofNat 39

/-- The quotation mark. -/
def quotation : Char := Char.ofNat 34

/-- Whether `c` opens a quoted text. -/
def isQuote (c : Char) : Bool :=
  c == apostrophe || c == quotation

/-- Whether `c` separates tokens. -/
def isSeparator (c : Char) : Bool :=
  c == ' ' || c == '\t' || c == ','

/-- Where a scan stands: the quote it is in and the number of open
parentheses. -/
structure Position where
  quote : Option Char := none
  depth : Nat := 0
deriving DecidableEq

/-- Whether `c` separates tokens at this position. -/
def Position.separates (position : Position) (c : Char) : Bool :=
  position.quote.isNone && position.depth == 0 && isSeparator c

/-- The position after `c`. -/
def Position.after (position : Position) (c : Char) : Position :=
  match position.quote with
  | some quote => if c == quote then { position with quote := none } else position
  | none =>
    if isQuote c then { position with quote := some c }
    else if c == '(' then { position with depth := position.depth + 1 }
    else if c == ')' then { position with depth := position.depth - 1 }
    else position

/-- The token read so far, if it has characters. -/
def close (current : List Char) : List (List Char) :=
  if current.isEmpty then [] else [current.reverse]

/-- The tokens of the rest of a text, given the characters of the token
before it in reverse. -/
def scan (position : Position) (current : List Char) : List Char → List (List Char)
  | [] => close current
  | c :: rest =>
    if position.separates c then close current ++ scan position [] rest
    else scan (position.after c) (c :: current) rest

/-- The tokens of a text. -/
def tokens (text : List Char) : List (List Char) :=
  scan {} [] text

/-- Whether a token is a quoted text: at least two characters, the first
a quote and the last the same. -/
def isQuoted (token : List Char) : Bool :=
  match token with
  | [] => false
  | [_] => false
  | first :: _ => isQuote first && token.getLast? == some first

/-- A quoted text without its quotes. -/
def unquote (token : List Char) : List Char :=
  (token.drop 1).dropLast

end TsoBridge.Token
