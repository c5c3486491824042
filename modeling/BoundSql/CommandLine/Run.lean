import BoundSql.CommandLine.Invocation
import BoundSql.Json.Reader
import BoundSql.Render.NullTest
import BoundSql.Script.Statement
import BoundSql.Tree.Encoding

/-!
# Running a command line

`run` says what a command line prints, given the standard input and the files it names. Whatever
fails, nothing has been printed before.
-/

namespace BoundSql.CommandLine

/-- What a command line reads. -/
structure World where
  /-- The name that the program goes by. -/
  program : String
  environment : Environment
  /-- The standard input, if it is text. -/
  input : Option String
  /-- The text of a file, if it can be read. -/
  file : String → Option String

/-- Why a command that makes sense fails. -/
inductive Failure
  | unreadableConfig (path : String)
  | invalidConfig (path : String)
  | unreadable (path : String)
  | unreadableInput
  | invalidValues
  | sql (e : SqlError)
  /-- A statement, counted from one, cannot be written. -/
  | statement (number : Nat) (typeName : String) (e : SqlError)

/-- How a command line ends. -/
inductive Outcome
  | printed (text : String)
  | failed (f : Failure)
  /-- The command line makes no sense. -/
  | misused

namespace Failure

/-- The lines of a text behind the first, moved to the right. -/
def indented (text : String) : String :=
  String.ofList (text.toList.flatMap fun c => if c = '\n' then "\n    ".toList else [c])

/-- The text shown to users. -/
def report : Failure → String
  | unreadableConfig path => s!"Error: cannot read config {path}"
  | invalidConfig path => s!"Error: invalid config {path}"
  | unreadable path => s!"Error: cannot read {path}"
  | unreadableInput => "Error: cannot read stdin"
  | invalidValues => "Error: --params is not valid JSON"
  | sql e => s!"Error: {e.message}"
  | statement number typeName e =>
    s!"Error: statement {number} ({typeName})\n\nCaused by:\n    {indented e.message}"

end Failure

namespace Outcome

/-- The exit code. -/
def exitCode : Outcome → Nat
  | printed _ => 0
  | failed _ => 1
  | misused => 2

/-- What is printed. -/
def output : Outcome → String
  | printed text => text
  | _ => ""

end Outcome

/-- The settings that a file holds. -/
structure FileSettings where
  parse : ParseSettings := {}
  render : RenderSettings := {}

namespace FileSettings

/-- The settings that a JSON value describes. -/
def ofJson? (j : Json) : Option FileSettings := do
  let given ← j.settings? ["parser", "render"]
  let parse ← Json.setting? given "parser" ParseSettings.ofJson? {}
  let render ← Json.setting? given "render" RenderSettings.ofJson? {}
  return { parse, render }

/-- The settings in the file that the command line names. -/
def load (w : World) : Option String → Except Failure FileSettings
  | none => .ok {}
  | some path =>
    match w.file path with
    | none => .error (.unreadableConfig path)
    | some text =>
      match (Json.read? text.toList { unique := true }).bind ofJson? with
      | some s => .ok s
      | none => .error (.invalidConfig path)

end FileSettings

namespace Invocation

/-- The settings for reading, the command line going before the file. -/
def parseSettings (i : Invocation) (s : ParseSettings) : ParseSettings :=
  { s with
    dialect := i.dialect.getD s.dialect
    maxLength := i.maxLength.getD s.maxLength
    strictTypes := s.strictTypes || i.strict }

/-- The script. -/
def script (i : Invocation) (w : World) : Except Failure String :=
  match i.input with
  | none =>
    match w.input with
    | some text => .ok text
    | none => .error .unreadableInput
  | some path =>
    match w.file path with
    | some text => .ok text
    | none => .error (.unreadable path)

/-- The statements of the script. -/
def statements (i : Invocation) (w : World) (s : ParseSettings) :
    Except Failure (List Statement) := do
  let text ← i.script w
  (Statement.readAll s [] text.toList).1.mapError .sql

end Invocation

/-- A parameter in the list of parameters. -/
def paramRow (s : ParamSpec) : Json :=
  .object
    ([("name", .string s.name)] ++ Json.textMember "type" s.typeName ++
      [("value_type", .string s.valueType.name), ("nullok", .bool s.nullok)] ++
      Json.textMember "descr" s.descr)

/-- The parameters of a statement. -/
def paramReport (s : Statement) : Json :=
  .object
    [("stmt_type", .string s.body.typeName), ("params", .array (s.params.specs.map paramRow))]

/-- The texts with a line break behind each. -/
def lines (texts : List String) : String := String.join (texts.map (· ++ "\n"))

/-- The number of statements and of clashes of types. -/
def summary (statements : List Statement) : String :=
  let clashes := statements.foldl (fun n s => n + s.params.conflicts.length) 0
  s!"{statements.length} statement(s), {clashes} parameter type conflict(s)"

/-- The statements, each behind a comment with its type. -/
def splitText (statements : List Statement) : String :=
  lines (statements.flatMap fun s => ["-- " ++ s.body.typeName, s.sql ++ ";"])

namespace RenderRequest

/-- The settings for writing, the command line going before the file. -/
def settings (r : RenderRequest) (s : RenderSettings) : RenderSettings :=
  { s with
    style := r.style.getD s.style
    pretty := s.pretty || r.pretty
    forceQuotes := s.forceQuotes || r.forceQuotes
    gmt := s.gmt || r.gmt }

/-- The values of parameters. -/
def bindings (r : RenderRequest) : Except Failure Bindings :=
  match r.values with
  | none => .ok .empty
  | some text =>
    match Json.read? text.toList with
    | none => .error .invalidValues
    | some j => (Bindings.ofJson j).mapError fun (name, reason) => .sql (.bind name reason)

/-- Writes statements, the first having this number. -/
def write (values : Bindings) (settings : RenderSettings) (d : Dialect) (number : Nat) :
    List Statement → Except Failure (List String)
  | [] => .ok []
  | s :: rest => do
    let text ← (s.render values settings d).mapError (.statement number s.body.typeName)
    return (text ++ ";") :: (← write values settings d (number + 1) rest)

end RenderRequest

namespace Command

/-- What the command prints about the statements. -/
def print (s : FileSettings) (statements : List Statement) : Command → Except Failure String
  | parse true => .ok (lines (statements.map (·.serialize)))
  | parse false => .ok (Statement.serializeAll statements ++ "\n")
  | params => .ok ((Json.array (statements.map paramReport)).pretty ++ "\n")
  | check => .ok (summary statements ++ "\n")
  | split => .ok (splitText statements)
  | render r => do
    let values ← r.bindings
    let d := r.target.getD s.parse.dialect
    return lines (← RenderRequest.write values (r.settings s.render) d 1 statements)

end Command

namespace Invocation

/-- What is printed, or why nothing is. -/
def print (i : Invocation) (w : World) : Except Failure String := do
  let file ← FileSettings.load w i.config
  let s : FileSettings := { file with parse := i.parseSettings file.parse }
  i.command.print s (← i.statements w s.parse)

end Invocation

/-- The version of the program. -/
def versionNumber : String := "0.1.0"

/-- What is printed, or why nothing is. -/
def Request.print (w : World) : Request → Except Failure String
  | version => .ok s!"{w.program} {versionNumber}\n"
  | run i => i.print w

/-- How a command line ends. -/
def run (w : World) (args : List String) : Outcome :=
  match Request.read? w.environment args with
  | none => .misused
  | some request =>
    match request.print w with
    | .ok text => .printed text
    | .error f => .failed f

end BoundSql.CommandLine
