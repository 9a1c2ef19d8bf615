import Scim.Cli.Arguments
import Scim.Json.Encode
import Scim.Json.Pretty
import Scim.Node.Dump
import Scim.Node.Render
import Scim.Parse.Filter
import Scim.Parse.Path
import Scim.Text.Plain

/-!
# `Scim.Cli.Report`: what a run of the program prints

Results go to the standard output. The expression that was read, errors and records go to the
standard error. The exit code is 0, or 1 for an expression that is refused, or 2 for wrong
arguments.
-/

set_option autoImplicit false

namespace Scim.Cli

/-- What a run prints, and the code it exits with. -/
structure Report where
  exitCode : Nat
  output : String
  errors : String
  deriving DecidableEq, Repr

/-- The name and version of the program. -/
def versionText : String := "scim-filter 0.2.0"

/-- How the program is used. -/
def usageText : String :=
  "Usage: scim-filter [-v] filter [-q] [-f filter|json|debug] [EXPRESSION]\n" ++
  "       scim-filter [-v] path [-q] [-f filter|json|debug] [EXPRESSION]\n" ++
  "       scim-filter [-v] validate [-q] [-p] [EXPRESSION]"

/-- A text and the end of its line. -/
def line (text : String) : String := text ++ "\n"

/-- A record on the standard error. A record may hold part of an expression as it is, which must not
steer the terminal; a string that does not end in the record takes the end of the line with it. -/
def recordLine (level : Level) (target message : String) : String :=
  Text.plain (line ("[" ++ level.name ++ " " ++ target ++ "] " ++ message))

/-- The records of events, as far as they are printed. -/
def recordLines (events : List Event) : String :=
  (events.filter fun e => e.level == .debug).foldl
    (fun text e => text ++ recordLine e.level e.target e.message) ""

/-- The expression of a run that reads it from the standard input: the input without the line ends
after it, if it is UTF-8. -/
def expressionOfInput? (input : ByteArray) : Option String :=
  (String.fromUTF8? input).map fun text =>
    String.ofList
      (text.toList.reverse.dropWhile fun c => c == '\n' || c == '\r').reverse

/-- What is printed about an expression that is refused. -/
def refusalLines (o : Options) (e : ParseError) : String :=
  line ("Error: " ++ e.message) ++
    match o.verbose, e.location? with
    | true, some location =>
      recordLine .debug "scim_filter" ("error at byte offset " ++ toString location.position)
    | _, _ => ""

/-- The report on an attempt to read an expression, given what is printed about a result on the
standard output and the standard error. -/
def reportOn {α : Type} (o : Options) (attempt : Attempt α) (print : α → String × String) :
    Report :=
  -- Reading comes before any other line, so its records do as well.
  let records := if o.verbose then recordLines attempt.events else ""
  match attempt.outcome with
  | .ok result => ⟨0, (print result).1, records ++ (print result).2⟩
  | .error e => ⟨1, "", records ++ refusalLines o e⟩

/-- What is printed on the standard error when a result is printed. -/
def heading (o : Options) (expression : String) : String :=
  if o.quiet then "" else line ("Expression: " ++ expression)

/-- A tree in a format. -/
def printNode (format : Format) (node : Node) : String :=
  match format with
  | .filter => node.render
  | .json => node.toJson.pretty
  | .debug => node.toDump.render

/-- A path expression in a format. -/
def printPath (format : Format) (path : PathExpression) : String :=
  match format with
  | .filter => path.render
  | .json => path.toJson.pretty
  | .debug => path.toDump.render

/-- What is printed when an expression is valid. -/
def verdict (o : Options) : String :=
  if o.quiet then "" else line "✓ Expression is valid"

/-- Runs a command on an expression. -/
def runOn (command : Command) (o : Options) (expression : String) : Report :=
  let format := o.format?.getD .filter
  match command with
  | .filter =>
    reportOn o (attemptFilter expression) fun node? =>
      (line ((node?.map (printNode format)).getD "(empty filter)"), heading o expression)
  | .path =>
    reportOn o (attemptPath expression) fun path =>
      (line (printPath format path), heading o expression)
  | .validate =>
    if o.asPath then reportOn o (attemptPath expression) fun _ => (verdict o, "")
    else reportOn o (attemptFilter expression) fun _ => (verdict o, "")

/-- Whether the standard input is read. -/
def Invocation.readsInput : Invocation → Bool
  | .run _ o => o.expression?.isNone
  | _ => false

/-- Does what the command line asks for. The standard input only matters if it is read. -/
def Invocation.perform (invocation : Invocation) (input : ByteArray) : Report :=
  match invocation with
  | .run command o =>
    match o.expression? with
    | some expression => runOn command o expression
    | none =>
      match expressionOfInput? input with
      | some expression => runOn command o expression
      | none => ⟨1, "", line "Error reading from stdin: stream did not contain valid UTF-8"⟩
  | .help => ⟨0, line usageText, ""⟩
  | .version => ⟨0, line versionText, ""⟩
  | .invalid => ⟨2, "", line usageText⟩

end Scim.Cli
