namespace Smpl

/-- The options of the command without a value. -/
inductive Flag
  | tree
  | listBackends
  | noPrelude
  | verbose
  | version
  | help
deriving DecidableEq, Repr

/-- The options of the command with a value. -/
inductive Parameter
  | input
  | backend
  | output
deriving DecidableEq, Repr

inductive CommandOption
  | flag (flag : Flag)
  | parameter (parameter : Parameter)
deriving DecidableEq, Repr

def CommandOption.ofLong? : String → Option CommandOption
  | "--input" => some (.parameter .input)
  | "--backend" => some (.parameter .backend)
  | "--output" => some (.parameter .output)
  | "--ast" => some (.flag .tree)
  | "--list-backends" => some (.flag .listBackends)
  | "--no-prelude" => some (.flag .noPrelude)
  | "--verbose" => some (.flag .verbose)
  | "--version" => some (.flag .version)
  | "--help" => some (.flag .help)
  | _ => none

def CommandOption.ofShort? : Char → Option CommandOption
  | 'i' => some (.parameter .input)
  | 'b' => some (.parameter .backend)
  | 'o' => some (.parameter .output)
  | 'v' => some (.flag .verbose)
  | _ => none

/-- Why arguments cannot be read. Options are given as they were written. -/
inductive ArgumentFault
  | unknownOption
  | missingValue (option : String)
  | unexpectedValue (option : String)
deriving DecidableEq, Repr

/-- The arguments of a command: flags in their order, parameters in their order, and the rest. -/
structure Arguments where
  flags : List Flag := []
  parameters : List (Parameter × String) := []
  files : List String := []
deriving DecidableEq, Repr, Inhabited

namespace Arguments

def addFlag (args : Arguments) (flag : Flag) : Arguments :=
  { args with flags := args.flags ++ [flag] }

def addParameter (args : Arguments) (parameter : Parameter) (value : String) : Arguments :=
  { args with parameters := args.parameters ++ [(parameter, value)] }

def addFiles (args : Arguments) (files : List String) : Arguments :=
  { args with files := args.files ++ files }

def has (args : Arguments) (flag : Flag) : Bool :=
  args.flags.contains flag

/-- All values of a parameter. -/
def values (args : Arguments) (parameter : Parameter) : List String :=
  args.parameters.filterMap fun (other, value) => if other = parameter then some value else none

/-- The value of a parameter. The last one counts. -/
def value? (args : Arguments) (parameter : Parameter) : Option String :=
  (args.values parameter).getLast?

/-- A parameter that still needs its value, with its name as it was written. -/
abbrev Pending := Option (Parameter × String)

/-- Reads one-letter options that share a dash. The first one with a value takes what is left. -/
def readShort (args : Arguments) : List Char → Except ArgumentFault (Arguments × Pending)
  | [] => .ok (args, none)
  | c :: rest =>
    match CommandOption.ofShort? c with
    | none => .error .unknownOption
    | some (.flag flag) => (args.addFlag flag).readShort rest
    | some (.parameter parameter) =>
      if rest.isEmpty then .ok (args, some (parameter, String.ofList ['-', c]))
      else .ok (args.addParameter parameter (String.ofList rest), none)

/-- Reads an option. A long one may have its value after an equals sign. -/
def readOption (args : Arguments) (chars : List Char) : Except ArgumentFault (Arguments × Pending) :=
  let name := String.ofList (chars.takeWhile (· ≠ '='))
  let value? := match chars.dropWhile (· ≠ '=') with
    | [] => none
    | _ :: value => some (String.ofList value)
  match CommandOption.ofLong? name, value? with
  | some (.flag flag), none => .ok (args.addFlag flag, none)
  | some (.flag _), some _ => .error (.unexpectedValue name)
  | some (.parameter parameter), none => .ok (args, some (parameter, name))
  | some (.parameter parameter), some value => .ok (args.addParameter parameter value, none)
  | none, _ => if chars.take 2 = ['-', '-'] then .error .unknownOption else args.readShort (chars.drop 1)

/-- Reads words after those that have been read. After two dashes only files come. -/
def readFrom (args : Arguments) : List String → Except ArgumentFault Arguments
  | [] => .ok args
  | word :: words =>
    if word = "--" then .ok (args.addFiles words)
    else if word.toList.head? = some '-' && word ≠ "-" then
      match args.readOption word.toList with
      | .error fault => .error fault
      | .ok (args, none) => args.readFrom words
      | .ok (args, some (parameter, name)) =>
        match words with
        | [] => .error (.missingValue name)
        | value :: words => (args.addParameter parameter value).readFrom words
    else (args.addFiles [word]).readFrom words

def read (words : List String) : Except ArgumentFault Arguments :=
  ({} : Arguments).readFrom words

end Arguments

end Smpl
