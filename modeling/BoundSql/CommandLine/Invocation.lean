import BoundSql.CommandLine.Arguments
import BoundSql.Number.Reading
import BoundSql.Number.Width
import BoundSql.Settings

/-!
# What the command line asks for

The arguments and the environment together say what is to be done, or they make no sense. An option
on the command line overrules the environment, which is not looked at where it is not needed.
-/

namespace BoundSql.CommandLine

/-- What the environment says where the command line does not, as written. -/
structure Environment where
  dialect : Option String
  maxLength : Option String

/-- How the command that writes SQL is asked to do it. -/
structure RenderRequest where
  /-- The values of parameters, as JSON. -/
  values : Option String
  target : Option Dialect
  style : Option ParamStyle
  pretty : Bool
  forceQuotes : Bool
  gmt : Bool

/-- What is done with the statements of a script. -/
inductive Command
  /-- Show their canonical texts, one on a line or all as one value. -/
  | parse (lines : Bool)
  /-- List their parameters. -/
  | params
  /-- Count them. -/
  | check
  /-- Show each with its type. -/
  | split
  /-- Write them as SQL. -/
  | render (r : RenderRequest)

/-- What the options in front of the command say. -/
structure Options where
  dialect : Option Dialect
  maxLength : Option Nat
  strict : Bool
  /-- The file with settings. -/
  config : Option String

/-- A command with all that it needs to know. -/
structure Invocation extends Options where
  /-- The file with the script; the standard input if there is none. -/
  input : Option String
  command : Command

/-- What is asked for. -/
inductive Request
  /-- To tell the version of the program. -/
  | version
  /-- To carry out a command. -/
  | run (i : Invocation)

/-- The options in front of the command. -/
def globalSwitches : List Switch :=
  [ ⟨"dialect", some 'd', .value⟩, ⟨"max-statement-len", none, .value⟩, ⟨"strict", none, .flag⟩,
    ⟨"config", some 'c', .value⟩, ⟨"verbose", some 'v', .flag⟩, ⟨"version", some 'V', .last⟩ ]

/-- The options of the command that shows canonical texts. -/
def parseSwitches : List Switch := [⟨"lines", none, .flag⟩]

/-- The options of the command that writes SQL. -/
def renderSwitches : List Switch :=
  [ ⟨"params", some 'p', .value⟩, ⟨"target", some 't', .value⟩, ⟨"style", some 's', .value⟩,
    ⟨"pretty", none, .flag⟩, ⟨"force-quotes", none, .flag⟩, ⟨"gmt", none, .flag⟩ ]

/-- Reads a value that may be missing; one that cannot be read makes no sense. -/
def optional {α : Type} (read : String → Option α) : Option String → Option (Option α)
  | none => some none
  | some text => (read text).map some

/-- Reads the name of a file. -/
def fileName (text : String) : Option String := if text.isEmpty then none else some text

/-- Whether the name of a file stands for the standard input: a single hyphen, behind which slashes and
the single dots between them do not count. -/
def isStandardInput (name : String) : Bool :=
  match Text.splitAt '/' name.toList with
  | ['-'] :: others => others.all fun part => part.isEmpty || part == ['.']
  | _ => false

/-- Reads a natural number of at most 64 bits, which may have a plus sign. -/
def sizeOf? (text : String) : Option Nat :=
  let digits := match text.toList with
    | '+' :: cs => cs
    | cs => cs
  if digits.isEmpty || !digits.all Char.isDigit || !fitsUnsigned 64 (digitsValue digits) then none
  else some (digitsValue digits)

/-- Reads the name of a dialect. -/
def dialectOf? (text : String) : Option Dialect := (Dialect.read text).toOption

/-- Reads the arguments of a command: its options and at most one file. -/
def commandArguments (table : List Switch) (args : List String) :
    Option (Arguments × Option String) := do
  let a ← Arguments.read? table false args
  if !a.isPlain then none
  else
    match a.words with
    | [] => some (a, none)
    | [file] => do some (a, some (← fileName file))
    | _ => none

/-- Reads how SQL is to be written. -/
def renderRequest (a : Arguments) : Option RenderRequest := do
  return {
    values := a.value? "params"
    target := ← optional dialectOf? (a.value? "target")
    style := ← optional ParamStyle.ofName? (a.value? "style")
    pretty := a.has "pretty"
    forceQuotes := a.has "force-quotes"
    gmt := a.has "gmt" }

/-- Reads a command and the file it is about. -/
def readCommand (args : List String) : Option (Command × Option String) :=
  match args with
  | "parse" :: args => do
    let (a, file) ← commandArguments parseSwitches args
    return (.parse (a.has "lines"), file)
  | "params" :: args => do return (.params, (← commandArguments [] args).2)
  | "check" :: args => do return (.check, (← commandArguments [] args).2)
  | "split" :: args => do return (.split, (← commandArguments [] args).2)
  | "render" :: args => do
    let (a, file) ← commandArguments renderSwitches args
    return (.render (← renderRequest a), file)
  | _ => none

namespace Options

/-- Reads the options in front of the command. -/
def read? (a : Arguments) : Option Options := do
  return {
    dialect := ← optional dialectOf? (a.value? "dialect")
    maxLength := ← optional sizeOf? (a.value? "max-statement-len")
    strict := a.has "strict"
    config := ← optional fileName (a.value? "config") }

/-- The options, completed from the environment. -/
def complete? (env : Environment) (o : Options) : Option Options := do
  let dialect ← if o.dialect.isSome then some o.dialect else optional dialectOf? env.dialect
  let maxLength ← if o.maxLength.isSome then some o.maxLength else optional sizeOf? env.maxLength
  return { o with dialect, maxLength }

end Options

/-- The files that are read, the settings first. -/
def Invocation.files (i : Invocation) : List String := i.config.toList ++ i.input.toList

namespace Request

/-- Reads a command line. -/
def read? (env : Environment) (args : List String) : Option Request := do
  let a ← Arguments.read? globalSwitches true args
  let given ← Options.read? a
  if !a.isPlain then none
  else if a.has "version" then some version
  else
    let (command, input) ← readCommand a.words
    let options ← given.complete? env
    return run { options with input := input.filter (!isStandardInput ·), command }

/-- The files that are read, the settings first. -/
def files : Request → List String
  | version => []
  | run i => i.files

/-- Whether the standard input is read. -/
def readsInput : Request → Bool
  | version => false
  | run i => i.input.isNone

end Request

end BoundSql.CommandLine
