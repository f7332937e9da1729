/-
The command line:

    [OPTIONS] cmd TEXT [--no-capture] [--authorized] [--mode MODE]
    [OPTIONS] alloc SPEC
    [OPTIONS] batch FILE
    [OPTIONS] config

with the options `--config FILE`, `--format text|json` and `--verbose`
(`-v`) before or after the subcommand. An option may be given once before
and once after it, and then the later one holds. A value follows its
option or stands behind `=`; a value of its own does not start with a
dash. After `--` nothing is an option.
-/
import TsoBridge.Settings

namespace TsoBridge.Cli

/-- The form of a report. -/
inductive Format where
  | text
  | json
deriving DecidableEq

/-- What is to be done. -/
inductive Action where
  | cmd (text : String) (noCapture authorized : Bool) (mode : Option CaptureMode)
  | alloc (operands : String)
  | batch (file : String)
  | config
deriving DecidableEq

/-- A command line that makes sense. -/
structure Arguments where
  config : Option String
  format : Format
  verbose : Bool
  action : Action
deriving DecidableEq

/-- The subcommands. -/
inductive Subcommand where
  | cmd
  | alloc
  | batch
  | config
deriving DecidableEq

/-- The subcommand of a name. -/
def Subcommand.ofString? (name : String) : Option Subcommand :=
  if name = "cmd" then some .cmd
  else if name = "alloc" then some .alloc
  else if name = "batch" then some .batch
  else if name = "config" then some .config
  else none

/-- The options and words given before, or after, the subcommand. -/
structure Given where
  config : Option String := none
  format : Option Format := none
  verbose : Bool := false
  noCapture : Bool := false
  authorized : Bool := false
  mode : Option CaptureMode := none
  words : List String := []
deriving DecidableEq

/-- What an argument looks like. -/
inductive Shape where
  /-- `--` -/
  | stop
  /-- `--name` or `--name=value` -/
  | long (name : String) (value : Option String)
  /-- `-letters` -/
  | short (letters : List Char)
  | word
deriving DecidableEq

/-- What an argument looks like. -/
def shapeOf (argument : String) : Shape :=
  match argument.toList with
  | '-' :: '-' :: [] => .stop
  | '-' :: '-' :: rest =>
    match Text.cut (· == '=') rest with
    | some (name, value) => .long (String.ofList name) (some (String.ofList value))
    | none => .long (String.ofList rest) none
  | '-' :: first :: rest => .short (first :: rest)
  | _ => .word

-- ============================================================== options

/-- Sets an option that takes a value; `none` if it was set before or
takes no such value, or if there is no such option here. -/
def setValue (inCmd : Bool) (given : Given) (name value : String) : Option Given :=
  if name = "config" then
    if given.config.isSome || value = "" then none else some { given with config := some value }
  else if name = "format" then
    if given.format.isSome then none
    else if value = "text" then some { given with format := some .text }
    else if value = "json" then some { given with format := some .json }
    else none
  else if name = "mode" && inCmd then
    match given.mode, CaptureMode.ofString value with
    | none, .ok mode => some { given with mode := some mode }
    | _, _ => none
  else none

/-- Sets an option that takes no value; `none` if it was set before or if
there is no such option here. -/
def setSwitch (inCmd : Bool) (given : Given) (name : String) : Option Given :=
  if name = "verbose" then
    if given.verbose then none else some { given with verbose := true }
  else if name = "no-capture" && inCmd then
    if given.noCapture then none else some { given with noCapture := true }
  else if name = "authorized" && inCmd then
    if given.authorized then none else some { given with authorized := true }
  else none

/-- Whether an option takes a value. -/
def takesValue (name : String) : Bool :=
  name = "config" || name = "format" || name = "mode"

/-- Sets the options of a group of letters. -/
def setLetters (given : Given) : List Char → Option Given
  | [] => some given
  | letter :: rest =>
    if letter == 'v' then
      match setSwitch false given "verbose" with
      | some next => setLetters next rest
      | none => none
    else none

-- ============================================================== reading

/-- Reads options up to the first word. -/
def readOptions (inCmd : Bool) (given : Given) : List String → Option (Given × List String)
  | [] => some (given, [])
  | [argument] =>
    match shapeOf argument with
    | .word => some (given, [argument])
    | .stop => some (given, [argument])
    | .short letters => (setLetters given letters).map fun next => (next, [])
    | .long name (some value) => (setValue inCmd given name value).map fun next => (next, [])
    | .long name none => (setSwitch inCmd given name).map fun next => (next, [])
  | argument :: next :: rest =>
    match shapeOf argument with
    | .word => some (given, argument :: next :: rest)
    | .stop => some (given, argument :: next :: rest)
    | .short letters => do
      let given ← setLetters given letters
      readOptions inCmd given (next :: rest)
    | .long name (some value) => do
      let given ← setValue inCmd given name value
      readOptions inCmd given (next :: rest)
    | .long name none =>
      if takesValue name then
        if shapeOf next = .word then do
          let given ← setValue inCmd given name next
          readOptions inCmd given rest
        else none
      else do
        let given ← setSwitch inCmd given name
        readOptions inCmd given (next :: rest)

/-- Reads the arguments after a subcommand: options and words in any
order, `fuel` words at most. -/
def readAll (inCmd : Bool) : Nat → Given → List String → Option Given
  | 0, _, _ => none
  | fuel + 1, given, arguments => do
    let (given, rest) ← readOptions inCmd given arguments
    match rest with
    | [] => some given
    | first :: rest =>
      if shapeOf first = .stop then some { given with words := given.words ++ rest }
      else readAll inCmd fuel { given with words := given.words ++ [first] } rest

/-- The action of a subcommand with what was given after it. -/
def actionOf (subcommand : Subcommand) (given : Given) : Option Action :=
  match subcommand, given.words with
  | .cmd, [text] => some (.cmd text given.noCapture given.authorized given.mode)
  | .alloc, [operands] => some (.alloc operands)
  | .batch, [file] => if file = "" then none else some (.batch file)
  | .config, [] => some .config
  | _, _ => none

/-- Reads a command line; `none` if it makes no sense. -/
def Arguments.parse (arguments : List String) : Option Arguments := do
  let (before, rest) ← readOptions false {} arguments
  match rest with
  | [] => none
  | name :: rest =>
    let subcommand ← Subcommand.ofString? name
    let after ← readAll (subcommand = .cmd) (rest.length + 1) {} rest
    let action ← actionOf subcommand after
    return { config := after.config.or before.config
             format := (after.format.or before.format).getD .text
             verbose := before.verbose || after.verbose
             action }

/-- The files a command line names. -/
def Arguments.files (arguments : Arguments) : List String :=
  arguments.config.toList ++ match arguments.action with
    | .batch file => [file]
    | _ => []

end TsoBridge.Cli
