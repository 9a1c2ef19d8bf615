import Scim.Token.Basic

/-!
# `Scim.Cli.Arguments`: what the command line asks for

    scim-filter [-v] filter   [-v] [-q] [-f FORMAT] [EXPRESSION]
    scim-filter [-v] path     [-v] [-q] [-f FORMAT] [EXPRESSION]
    scim-filter [-v] validate [-v] [-q] [-p] [EXPRESSION]

Options have a long and a short name. Short ones can be bundled (`-qfjson`), a value can follow in
the next argument or be attached (`-fjson`, `-f=json`, `--format=json`). No option may be given
twice. `--` ends the options, so that the expression can start with a hyphen. Arguments are taken
from left to right: the first one that is wrong, or asks for help, decides.
-/

set_option autoImplicit false

namespace Scim.Cli

/-- How a result is printed. -/
inductive Format where
  /-- As an expression. -/
  | filter
  /-- As JSON. -/
  | json
  /-- As a dump. -/
  | debug
  deriving DecidableEq, Repr

/-- The format of a name. -/
def Format.ofName? : String → Option Format
  | "filter" => some .filter
  | "json" => some .json
  | "debug" => some .debug
  | _ => none

/-- What is done with the expression. -/
inductive Command where
  /-- A filter is read and printed. -/
  | filter
  /-- A PATCH path is read and printed. -/
  | path
  /-- The syntax of a filter or path is checked. -/
  | validate
  deriving DecidableEq, Repr

/-- The command of a name. -/
def Command.ofName? : String → Option Command
  | "filter" => some .filter
  | "path" => some .path
  | "validate" => some .validate
  | _ => none

/-- What has been given to a command. -/
structure Options where
  /-- The expression. -/
  expression? : Option String := none
  /-- The format, if it has been chosen. -/
  format? : Option Format := none
  /-- Whether what is not a result is left out. -/
  quiet : Bool := false
  /-- Whether a path is validated, and not a filter. -/
  asPath : Bool := false
  /-- Whether records of what happens are printed. -/
  verbose : Bool := false
  deriving DecidableEq, Repr

/-- What the command line asks for. -/
inductive Invocation where
  /-- A command is run. -/
  | run (command : Command) (options : Options)
  /-- The usage is explained. -/
  | help
  /-- The version is printed. -/
  | version
  /-- Nothing, because the arguments are wrong. -/
  | invalid
  deriving DecidableEq, Repr

/-- The options of a command. -/
inductive Flag where
  | verbose
  | quiet
  | asPath
  | format
  | help
  deriving DecidableEq, Repr

namespace Flag

/-- The option of a long name. -/
def ofLong? : String → Option Flag
  | "verbose" => some .verbose
  | "quiet" => some .quiet
  | "path" => some .asPath
  | "format" => some .format
  | "help" => some .help
  | _ => none

/-- The option of a short name. -/
def ofShort? : Char → Option Flag
  | 'v' => some .verbose
  | 'q' => some .quiet
  | 'p' => some .asPath
  | 'f' => some .format
  | 'h' => some .help
  | _ => none

/-- Whether a command has an option. -/
def belongsTo (command : Command) : Flag → Bool
  | .asPath => command = .validate
  | .format => command ≠ .validate
  | _ => true

end Flag

/-- What an argument leads to: the options so far and whether a value has to follow, or an end. -/
abbrev Progress := Except Invocation (Options × Bool)

namespace Options

/-- Sets an option that takes no value, unless it has been set. -/
def set (o : Options) : Flag → Progress
  | .verbose => if o.verbose then .error .invalid else .ok ({ o with verbose := true }, false)
  | .quiet => if o.quiet then .error .invalid else .ok ({ o with quiet := true }, false)
  | .asPath => if o.asPath then .error .invalid else .ok ({ o with asPath := true }, false)
  | .help => .error .help
  | .format => .ok (o, true)

/-- Chooses the format, unless it has been chosen. -/
def setFormat (o : Options) (name : List Char) : Progress :=
  match o.format?, Format.ofName? (String.ofList name) with
  | none, some format => .ok ({ o with format? := some format }, false)
  | _, _ => .error .invalid

/-- Gives the expression, unless there is one. -/
def setExpression (o : Options) (expression : String) : Progress :=
  if o.expression?.isSome then .error .invalid
  else .ok ({ o with expression? := some expression }, false)

/-- Takes an option by its long name, to which a value may be attached. -/
def takeLong (command : Command) (o : Options) (long : List Char) : Progress :=
  let name := long.takeWhile (· ≠ '=')
  match (Flag.ofLong? (String.ofList name)).filter (Flag.belongsTo command),
      long.dropWhile (· ≠ '=') with
  | some .format, _ :: value => o.setFormat value
  | some flag, [] => o.set flag
  | _, _ => .error .invalid

/-- Takes a bundle of options by their short names. The letters after an option that takes a value
are that value. -/
def takeShort (command : Command) (o : Options) : List Char → Progress
  | [] => .ok (o, false)
  | c :: cs =>
    match (Flag.ofShort? c).filter (Flag.belongsTo command), cs with
    | some .format, [] => .ok (o, true)
    | some .format, '=' :: value => o.setFormat value
    | some .format, value => o.setFormat value
    | some flag, cs =>
      match o.set flag with
      | .ok (o, _) => o.takeShort command cs
      | .error e => .error e
    | none, _ => .error .invalid

end Options

/-- Whether an argument is an option, or the end of options. A hyphen on its own is not. -/
def isOption (argument : String) : Bool :=
  match argument.toList with
  | '-' :: _ :: _ => true
  | _ => false

/-- Takes the arguments after `--`. -/
def readTrailing (command : Command) (o : Options) : List String → Invocation
  | [] => .run command o
  | argument :: arguments =>
    match o.setExpression argument with
    | .ok (o, _) => readTrailing command o arguments
    | .error e => e

/-- Takes the arguments after a command. The flag tells whether the last one was an option whose
value has to follow. -/
def readOptions (command : Command) (o : Options) (awaiting : Bool) : List String → Invocation
  | [] => if awaiting then .invalid else .run command o
  | argument :: arguments =>
    if awaiting && isOption argument then .invalid
    else if argument = "--" then readTrailing command o arguments
    else
      let progress :=
        if awaiting then o.setFormat argument.toList
        else
          match argument.toList with
          | '-' :: '-' :: long => o.takeLong command long
          | '-' :: c :: cs => o.takeShort command (c :: cs)
          | _ => o.setExpression argument
      match progress with
      | .ok (o, awaiting) => readOptions command o awaiting arguments
      | .error e => e

/-- Takes the names after `help`: at most one, of a command or of `help` itself. -/
def readHelp : List String → Invocation
  | [] => .help
  | [name] => if (Command.ofName? name).isSome || name = "help" then .help else .invalid
  | _ => .invalid

/-- Takes a bundle of short options before the command. -/
def takeLeadingShort (verbose : Bool) : List Char → Except Invocation Bool
  | [] => .ok verbose
  | 'v' :: cs => if verbose then .error .invalid else takeLeadingShort true cs
  | 'h' :: _ => .error .help
  | 'V' :: _ => .error .version
  | _ => .error .invalid

/-- Takes an option before the command. -/
def takeLeading (verbose : Bool) (argument : String) : Except Invocation Bool :=
  match argument.toList with
  | '-' :: '-' :: long =>
    match String.ofList long with
    | "verbose" => if verbose then .error .invalid else .ok true
    | "help" => .error .help
    | "version" => .error .version
    | _ => .error .invalid
  | '-' :: c :: cs => takeLeadingShort verbose (c :: cs)
  | _ => .error .invalid

/-- Takes the arguments up to the command. -/
def readCommand (verbose : Bool) : List String → Invocation
  | [] => .invalid
  | argument :: arguments =>
    match Command.ofName? argument with
    | some command =>
      match readOptions command {} false arguments with
      | .run command o => .run command { o with verbose := verbose || o.verbose }
      | other => other
    | none =>
      if argument = "help" then readHelp arguments
      else
        match takeLeading verbose argument with
        | .ok verbose => readCommand verbose arguments
        | .error e => e

/-- What a command line asks for. -/
def Invocation.read (arguments : List String) : Invocation :=
  readCommand false arguments

end Scim.Cli
