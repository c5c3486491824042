import BoundSql.Text.Basic

/-!
# Command-line arguments

Arguments are options and words. An option is `--name` or a letter behind a single hyphen; letters
may share a hyphen. The value of an option stands behind it, or in the same argument behind an equals
sign or the letter. Behind the argument `--` all are words. An option can end the reading: whatever
stands behind it is not looked at.
-/

namespace BoundSql.CommandLine

open Text

/-- What giving an option means. -/
inductive Role
  /-- It holds. -/
  | flag
  /-- It has a value. -/
  | value
  /-- It holds, and the reading ends. -/
  | last

/-- An option that a command understands. -/
structure Switch where
  name : String
  letter : Option Char
  role : Role

/-- The options and words found. An option without a value has an empty one. -/
structure Arguments where
  options : List (String × String)
  words : List String

/-- What is read behind an argument. -/
inductive Next
  /-- Another argument. -/
  | argument
  /-- The value of this option. -/
  | valueOf (name : String)
  /-- Nothing. -/
  | nothing

/-- What one argument says about options: those that are complete, and what is read next. -/
structure OptionArgument where
  complete : List (String × String)
  next : Next

/-- Whether an argument has the form of an option. A hyphen alone is a word. -/
def isOption (arg : String) : Bool :=
  match arg.toList with
  | '-' :: _ :: _ => true
  | _ => false

/-- Reads `name` or `name=value`. -/
def longOption (table : List Switch) (cs : List Char) : Option OptionArgument := do
  let name := String.ofList (cs.takeWhile (· != '='))
  let s ← table.find? (·.name == name)
  match cs.dropWhile (· != '='), s.role with
  | [], .flag => return ⟨[(s.name, "")], .argument⟩
  | [], .value => return ⟨[], .valueOf s.name⟩
  | [], .last => return ⟨[(s.name, "")], .nothing⟩
  | _ :: value, .value => return ⟨[(s.name, String.ofList value)], .argument⟩
  | _ :: _, _ => none

/-- The value in an argument behind a letter, with or without an equals sign. -/
def letterValue (name : String) : List Char → OptionArgument
  | [] => ⟨[], .valueOf name⟩
  | '=' :: value => ⟨[(name, String.ofList value)], .argument⟩
  | value => ⟨[(name, String.ofList value)], .argument⟩

/-- Reads letters, the last of which may have a value or end the reading. -/
def letters (table : List Switch) : List Char → Option OptionArgument
  | [] => some ⟨[], .argument⟩
  | c :: cs =>
    match table.find? (·.letter == some c) with
    | none => none
    | some s =>
      match s.role with
      | .flag =>
        (letters table cs).map fun more => { more with complete := (s.name, "") :: more.complete }
      | .value => some (letterValue s.name cs)
      | .last => some ⟨[(s.name, "")], .nothing⟩

/-- Reads an argument that has the form of an option. -/
def optionArgument (table : List Switch) (arg : String) : Option OptionArgument :=
  match arg.toList with
  | '-' :: '-' :: cs => longOption table cs
  | _ :: cs => letters table cs
  | [] => none

namespace Arguments

/-- The arguments with options in front. -/
def withOptions (given : List (String × String)) (a : Arguments) : Arguments :=
  { a with options := given ++ a.options }

/-- The arguments with a word in front. -/
def withWord (w : String) (a : Arguments) : Arguments := { a with words := w :: a.words }

/-- Reads arguments. With `stop` the first word ends the options, and it and all behind it are
words. -/
def read? (table : List Switch) (stop : Bool) : List String → Option Arguments
  | [] => some ⟨[], []⟩
  | arg :: rest =>
    if arg = "--" then if stop then none else some ⟨[], rest⟩
    else if isOption arg then
      match optionArgument table arg with
      | none => none
      | some ⟨given, .argument⟩ => (read? table stop rest).map (withOptions given)
      | some ⟨given, .nothing⟩ => some ⟨given, []⟩
      | some ⟨given, .valueOf name⟩ =>
        match rest with
        | [] => none
        | value :: rest =>
          if isOption value then none
          else (read? table stop rest).map (withOptions (given ++ [(name, value)]))
    else if stop then some ⟨[], arg :: rest⟩
    else (read? table stop rest).map (withWord arg)

/-- Whether no option is given twice. -/
def isPlain (a : Arguments) : Bool := decide (a.options.map (·.1)).Nodup

/-- The value of an option. -/
def value? (a : Arguments) (name : String) : Option String := a.options.lookup name

/-- Whether an option is given. -/
def has (a : Arguments) (name : String) : Bool := (a.value? name).isSome

end Arguments

end BoundSql.CommandLine
