/-
Command lines and operand lists. The first token of a command line is its
verb; the operands after it are quoted or bare positional words,
keywords with a value in parentheses, and flags:

    VERB word 'Quoted text' KEYWORD(value) FLAG

Bare text is held in upper case, quoted text as it stands.
-/
import TsoBridge.Operand.Token
import TsoBridge.Text.Blank
import TsoBridge.Text.Case
import TsoBridge.Text.Line

namespace TsoBridge

/-- A command line taken apart. -/
structure Command where
  /-- The verb; empty for a bare operand list. -/
  name : String := ""
  positional : List String := []
  /-- The keywords with their values, each keyword once. -/
  keywords : List (String × String) := []
  flags : List String := []
deriving DecidableEq

namespace Command

-- =============================================================== queries

/-- Whether a flag was given. -/
def hasFlag (command : Command) (flag : String) : Bool :=
  command.flags.contains (Text.upper flag)

/-- The value of the first of several keywords that was given. -/
def keyword (command : Command) (names : List String) : Option String :=
  names.findSome? fun name => command.keywords.lookup (Text.upper name)

/-- The first positional word. -/
def firstPositional (command : Command) : Option String :=
  command.positional.head?

-- =============================================================== reading

/-- The words that are flags wherever they stand. -/
def knownFlags : List String :=
  ["SHR", "OLD", "NEW", "MOD", "REUSE", "STATUS", "HISTORY", "MEMBERS", "ALL", "LIST"]

/-- Sets the value of a keyword; a later value takes the place of an
earlier one. -/
def setKeyword (key value : String) : List (String × String) → List (String × String)
  | [] => [(key, value)]
  | entry :: rest =>
    if entry.1 = key then (key, value) :: rest else entry :: setKeyword key value rest

/-- The value of a keyword from what follows its opening parenthesis. -/
def keywordValue (text : List Char) : String :=
  let inner := if text.getLast? == some ')' then text.dropLast else text
  if Token.isQuoted inner then String.ofList (Token.unquote inner)
  else Text.upper (Text.trim (String.ofList inner))

/-- Adds an operand. -/
def addOperand (command : Command) (token : List Char) : Command :=
  let word := Text.upper (String.ofList token)
  if Token.isQuoted token then
    { command with positional := command.positional ++ [String.ofList (Token.unquote token)] }
  else match Text.cut (· == '(') token with
    | some (key, rest) =>
      let key := Text.upper (String.ofList key)
      { command with keywords := setKeyword key (keywordValue rest) command.keywords }
    | none =>
      if token.all Char.isAlpha && !command.positional.isEmpty || knownFlags.contains word then
        { command with flags := command.flags ++ [word] }
      else { command with positional := command.positional ++ [word] }

/-- The tokens of a text without the blanks around it. -/
def tokensOf (text : String) : List (List Char) :=
  Token.tokens (Text.trimmed text.toList)

/-- Reads a list of operands without a verb. -/
def ofOperands (text : String) : Command :=
  (tokensOf text).foldl addOperand {}

/-- Reads a command line. -/
def parse (text : String) : Command :=
  match tokensOf text with
  | [] => {}
  | verb :: operands =>
    { operands.foldl addOperand {} with name := Text.upper (String.ofList verb) }

/-- The verb of a command line. -/
def verb (text : String) : String :=
  match tokensOf text with
  | [] => ""
  | verb :: _ => Text.upper (String.ofList verb)

end Command
end TsoBridge
