import Smpl.CommandLine.Arguments
import Smpl.CommandLine.Files
import Smpl.Compile
import Smpl.Location
import Smpl.Text.Control
import Smpl.Text.Integer
import Smpl.Text.Utf8

namespace Smpl

def Text.Utf8Cause.text : Text.Utf8Cause → String
  | .invalidStart => "invalid start byte"
  | .invalidContinuation => "invalid continuation byte"
  | .unexpectedEnd => "unexpected end of data"

def Text.Utf8Fault.text (fault : Text.Utf8Fault) : String :=
  let range :=
    if fault.count = 1 then
      "byte 0x" ++ String.ofList (Text.hexadecimal 2 fault.byte.toNat) ++ " in position " ++
        toString fault.position
    else
      "bytes in position " ++ toString fault.position ++ "-" ++ toString (fault.position + fault.count - 1)
  "'utf-8' codec can't decode " ++ range ++ ": " ++ fault.cause.text

/-- Why a command failed after its arguments were understood. -/
inductive CommandFault
  | noInputs
  | notFound (path : PathName)
  | undecodable (fault : Text.Utf8Fault)
  | unusable (fault : FileFault) (path : PathName)
  | failure (failure : Failure)

/-- What is said about an input file that does not exist. -/
def missingFileText (path : PathName) : String :=
  "Source file not found: " ++ path.text

/-- What is said about a file that cannot be used. -/
def fileFaultText (fault : FileFault) (path : PathName) : String :=
  fault.text ++ ": " ++ Text.display path.text

namespace CommandFault

/-- The faults of files that a caller is expected to make. -/
def isOrdinary : FileFault → Bool
  | .noSuchFile | .isDirectory => true
  | .notDirectory | .nameTooLong | .nullCharacter => false

def text : CommandFault → String
  | .noInputs => "Error: no input files"
  | .notFound path => "Error: " ++ missingFileText path
  | .undecodable fault => "Error: " ++ fault.text
  | .unusable fault path =>
    (if isOrdinary fault then "Error: " else "Internal error: ") ++ fileFaultText fault path
  | .failure (.diagnostic d) => d.text
  | .failure (.defect d) => "Internal error: " ++ d.text

/-- Refused programs give 1, wrong arguments and unreadable files 2, everything else 3. -/
def exitCode : CommandFault → Nat
  | .noInputs | .notFound _ | .undecodable _ => 2
  | .unusable fault _ => if isOrdinary fault then 2 else 3
  | .failure (.diagnostic { cause := .unknownBackend _ _, .. }) => 2
  | .failure (.diagnostic _) => 1
  | .failure (.defect _) => 3

end CommandFault

/-- What a command does: its exit code, its output, its messages, and the file it writes. -/
structure Outcome where
  exitCode : Nat := 0
  stdout : String := ""
  stderr : String := ""
  isUsageError : Bool := false
  written : Option (PathName × String) := none
deriving DecidableEq, Repr, Inhabited

/-- The version of the command. -/
def version : String := "0.3.0"

/-- Arguments whose values have been checked. -/
structure Command where
  sources : List PathName
  backend : Int
  output : Option PathName
  tree : Bool
  listBackends : Bool
  noPrelude : Bool
  verbose : Bool
deriving DecidableEq, Repr, Inhabited

/-- Why the values of arguments are not accepted: they make no sense, or looking at them fails. -/
inductive Rejection
  | senseless
  | broken
deriving DecidableEq, Repr

/-- Checks an input, which must be a file. -/
def checkInput (around : Surroundings) (path : String) : Except Rejection Unit :=
  match around.entry path with
  | .ok .file => .ok ()
  | .error .nullCharacter => .error .broken
  | .ok .directory | .error _ => .error .senseless

/-- Checks the output, which must not be a directory. -/
def checkOutput (around : Surroundings) (path : String) : Except Rejection Unit :=
  if path = "-" then .ok ()
  else
    match around.entry path with
    | .ok .directory => .error .senseless
    | .error .nullCharacter => .error .broken
    | .ok .file | .error _ => .ok ()

namespace Arguments

/-- The number of the backend. -/
def backend? (args : Arguments) : Option Int :=
  Text.integer? maxDigits ((args.value? .backend).getD "0")

def checkParameter (args : Arguments) (around : Surroundings) : Parameter → Except Rejection Unit
  | .input => (args.values .input).forM (checkInput around)
  | .backend => if args.backend?.isSome then .ok () else .error .senseless
  | .output => (args.value? .output).forM (checkOutput around)

/-- Checks the values of arguments: the parameters in the order in which they were first given, and
    then the files. -/
def check (args : Arguments) (around : Surroundings) : Except Rejection Unit := do
  (args.parameters.map (·.1)).eraseDups.forM (args.checkParameter around)
  args.files.forM (checkInput around)

end Arguments

/-- Checks arguments and takes them together. -/
def Command.ofArguments (around : Surroundings) (args : Arguments) : Except Rejection Command := do
  args.check around
  return {
    sources := (args.values .input ++ args.files).map PathName.ofText
    backend := args.backend?.getD 0
    output := (args.value? .output).map PathName.ofText
    tree := args.has .tree
    listBackends := args.has .listBackends
    noPrelude := args.has .noPrelude
    verbose := args.has .verbose }

/-- Reads an input file. All line breaks become line feeds. -/
def Surroundings.read (around : Surroundings) (path : PathName) : Except CommandFault Source :=
  match around.entry path.text with
  | .error fault => .error (if fault.isAbsence then .notFound path else .unusable fault path)
  | .ok .directory => .error (.unusable .isDirectory path)
  | .ok .file =>
    match Text.decodeUtf8 (around.bytes path) with
    | .error fault => .error (.undecodable fault)
    | .ok chars => .ok ⟨path.text, String.ofList (Text.unifyBreaks chars)⟩

/-- Compiles files. -/
def Options.compileFiles (options : Options) (around : Surroundings) (backends : Backends)
    (paths : List PathName) : Except CommandFault Compiled := do
  let sources ← paths.mapM around.read
  (options.compile backends sources).outcome.mapError .failure

def unlines (lines : List String) : String :=
  "".intercalate (lines.map (· ++ "\n"))

namespace Command

def options (command : Command) : Options where
  backend := .number command.backend
  withPrelude := !command.noPrelude

/-- Ends a command after some output, with the notes of its work if they are wanted. Control sequences
    are left out of everything but the notes. -/
def finish (command : Command) (stdout : String) (notes : List String)
    (result : Except CommandFault Outcome) : Outcome :=
  let debug := if command.verbose then notes.map ("DEBUG: " ++ ·) else []
  match result with
  | .ok outcome =>
    { outcome with stdout := Text.plain (stdout ++ outcome.stdout), stderr := unlines debug }
  | .error fault =>
    { exitCode := fault.exitCode
      stdout := Text.plain stdout
      stderr := unlines (debug ++ [Text.plain fault.text]) }

/-- Prints the canonical text of each module. -/
def printTrees (command : Command) (around : Surroundings) : Outcome :=
  match command.sources.mapM around.read with
  | .error fault => command.finish "" [] (.error fault)
  | .ok sources =>
    let work := readSources sources
    command.finish "" work.notes do
      let modules ← work.outcome.mapError .failure
      let text ← (Canonical.texts modules).mapError .failure
      return { stdout := text }

/-- Puts the compiled text where it belongs. -/
def deliver (command : Command) (around : Surroundings) (output : PathName) (compiled : Compiled) :
    Except CommandFault Outcome :=
  if output.text = "-" then return { stdout := compiled.output }
  else
    match around.writeFault output with
    | some fault => .error (.unusable fault output)
    | none =>
      let details :=
        if command.verbose then
          ["Tokenized: " ++ toString compiled.tokens ++ " tokens",
            "Modules: " ++ ", ".intercalate compiled.modules,
            "Wrote " ++ toString compiled.output.length ++ " bytes to " ++ output.text]
        else []
      let summary :=
        "Compiled " ++ toString command.sources.length ++ " file(s) -> " ++ output.text
      return { stdout := unlines (details ++ [summary]), written := some (output, compiled.output) }

/-- Compiles the inputs. -/
def compile (command : Command) (around : Surroundings) (backends : Backends) (first : PathName) : Outcome :=
  match backends.get (.number command.backend) with
  | .error failure => command.finish "" [] (.error (.failure failure))
  | .ok backend =>
    let output := command.output.getD (defaultOutput first command.sources backend.extension)
    let announcement :=
      if command.verbose then
        "Compiling " ++ ", ".intercalate (command.sources.map PathName.text) ++ " with backend " ++
          toString command.backend ++ " (" ++ backend.name ++ ")\n"
      else ""
    match command.sources.mapM around.read with
    | .error fault => command.finish announcement [] (.error fault)
    | .ok sources =>
      let work := command.options.compile backends sources
      command.finish announcement work.notes do
        let compiled ← work.outcome.mapError .failure
        command.deliver around output compiled

/-- Carries out a command. -/
def run (command : Command) (around : Surroundings) (backends : Backends) : Outcome :=
  if command.listBackends then
    command.finish "" [] do
      let available ← backends.available.mapError .failure
      return { stdout := unlines (available.map fun backend => backend.id.shown ++ "  " ++ backend.name) }
  else
    match command.sources with
    | [] => command.finish "" [] (.error .noInputs)
    | first :: _ =>
      if command.tree then command.printTrees around else command.compile around backends first

end Command

/-- What the command says about itself. -/
def helpText : String :=
  unlines [
    "Usage: smplc [OPTIONS] [FILES]...",
    "",
    "  Compile smpl source files to a target language.",
    "",
    "Options:",
    "  -i, --input FILE     smpl source file (can be repeated)",
    "  -b, --backend ID     Backend id (see --list-backends)",
    "  -o, --output FILE    Output file, '-' for stdout",
    "  --ast                Print the canonical source of each parsed module and exit",
    "  --list-backends      List available backends and exit",
    "  --no-prelude         Compile without the builtin prelude",
    "  -v, --verbose        Verbose output",
    "  --version            Show the version and exit.",
    "  --help               Show this message and exit."]

/-- The outcome of arguments that make no sense. -/
def usageError : Outcome :=
  { exitCode := 2, isUsageError := true }

/-- Carries out the command that some words give. Asking for the version or for help wins over
    everything but words that cannot be read. -/
def runCommand (around : Surroundings) (backends : Backends) (words : List String) : Outcome :=
  match Arguments.read words with
  | .error .unknownOption => usageError
  | .error (.missingValue option) =>
    { exitCode := 2, stderr := "Error: Option '" ++ option ++ "' requires an argument.\n" }
  | .error (.unexpectedValue option) =>
    { exitCode := 2, stderr := "Error: Option '" ++ option ++ "' does not take a value.\n" }
  | .ok args =>
    match args.flags.find? fun flag => flag = .version || flag = .help with
    | some .version => { stdout := "smplc, version " ++ version ++ "\n" }
    | some _ => { stdout := helpText }
    | none =>
      match Command.ofArguments around args with
      | .error .senseless => usageError
      | .error .broken => { exitCode := 1 }
      | .ok command => command.run around backends

/-- The files below the current directory that a command leaves new or changed, with their texts. -/
def Outcome.changes (outcome : Outcome) (files : Files) : List (List String × String) :=
  match outcome.written with
  | none => []
  | some (path, text) =>
    match files.placeOf path with
    | .error _ => []
    | .ok place =>
      if Files.isInside place && files.bytes? place ≠ some text.toUTF8.toList then [(place, text)] else []

end Smpl
