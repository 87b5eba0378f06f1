import BundlePlan.CommandLine.Option
import BundlePlan.Text.Split

/-!
# What stands on a command line

A command line is read into a list of occurrences: flags, options with their values, and extra
arguments. A value follows its option as the next argument, or in the same one: after an equals
sign for a long name, directly for a letter. Letters of flags can be put together. After `--`
every argument is an extra one.
-/

namespace BundlePlan.CommandLine

/-- One thing on a command line. -/
inductive Occurrence where
  /-- A flag. -/
  | flag (o : CommandOption)
  /-- An option with its value. -/
  | value (o : CommandOption) (v : String)
  /-- An argument that belongs to no option. -/
  | extra (argument : String)
  deriving DecidableEq, Repr

/-- Why a command line cannot be used. -/
inductive UsageError where
  /-- There is no option of this name. -/
  | unknownOption (name : String)
  /-- An option is the last argument and lacks its value. -/
  | missingValue (name : String)
  /-- A flag was given a value. -/
  | unexpectedValue (name : String)
  /-- There are arguments that belong to no option. -/
  | extraArguments (arguments : List String)
  deriving DecidableEq, Repr

/-- What one argument says: occurrences, and the option whose value is the next argument, with
the name by which it was called. -/
structure ArgumentReading where
  /-- The occurrences that are complete. -/
  occurrences : List Occurrence
  /-- The option that waits for its value. -/
  awaiting : Option (CommandOption × String)
  deriving DecidableEq, Repr

/-- Reads the letters after a single dash. -/
def readLetters : List Char → Except UsageError ArgumentReading
  | [] => .ok ⟨[], none⟩
  | c :: rest =>
    let name := String.ofList ['-', c]
    match CommandOption.ofLetter? c with
    | none => .error (.unknownOption name)
    | some o =>
      if o.takesValue then
        if rest = [] then .ok ⟨[], some (o, name)⟩
        else .ok ⟨[.value o (String.ofList rest)], none⟩
      else (readLetters rest).map fun r => { r with occurrences := .flag o :: r.occurrences }

/-- The name at the start of an argument and the value after the first equals sign. -/
def splitValue (argument : List Char) : String × Option String :=
  match Text.cutFirst '=' argument with
  | some (name, value) => (String.ofList name, some (String.ofList value))
  | none => (String.ofList argument, none)

/-- Reads an argument that starts with a dash. It is taken as a long name first, even with a
single dash; what is no long name is read letter by letter unless it has two dashes. -/
def readOption (argument : List Char) : Except UsageError ArgumentReading :=
  let (name, value?) := splitValue argument
  match CommandOption.ofLongName? name with
  | some o =>
    match o.takesValue, value? with
    | true, some v => .ok ⟨[.value o v], none⟩
    | true, none => .ok ⟨[], some (o, name)⟩
    | false, some _ => .error (.unexpectedValue name)
    | false, none => .ok ⟨[.flag o], none⟩
  | none =>
    if argument.take 2 = ['-', '-'] then .error (.unknownOption name)
    else readLetters (argument.drop 1)

/-- Whether an argument is read as an option. -/
def isOption (argument : List Char) : Bool :=
  argument.head? == some '-' && argument.length != 1

/-- Reads a command line. The first argument at fault decides the error. -/
def readArguments : List String → Except UsageError (List Occurrence)
  | [] => .ok []
  | argument :: rest =>
    if argument = "--" then .ok (rest.map .extra)
    else if isOption argument.toList then
      match readOption argument.toList with
      | .error e => .error e
      | .ok ⟨occurrences, none⟩ => (readArguments rest).map (occurrences ++ ·)
      | .ok ⟨occurrences, some (o, name)⟩ =>
        match rest with
        | [] => .error (.missingValue name)
        | v :: rest => (readArguments rest).map (occurrences ++ .value o v :: ·)
    else (readArguments rest).map (.extra argument :: ·)

end BundlePlan.CommandLine
