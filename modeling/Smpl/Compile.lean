import Smpl.Backend.Registry
import Smpl.Graph.Build
import Smpl.Parse.Module

namespace Smpl

/-- A source text under the name that diagnostics give it. -/
structure Source where
  file : String
  text : String
deriving DecidableEq, Repr, Inhabited

/-- A source text without a name, known by its place among the inputs. -/
def Source.unnamed (place : Nat) (text : String) : Source :=
  ⟨"<input-" ++ toString place ++ ">", text⟩

/-- Reads a source text as a module. -/
def Source.read (source : Source) : Traced Module := do
  let stream ← tokenize source.file source.text.toList
  Traced.note (source.file ++ ": " ++ toString stream.tokens.length ++ " tokens")
  Traced.count stream.count
  let module_ ← Module.parse source.file stream (sourceLines source.text)
  let name := module_.name.getD "<unnamed>"
  Traced.note (source.file ++ ": parsed module " ++ name ++ " with " ++ toString module_.items.length ++ " items")
  return module_

/-- The module that every program sees: `Option` and the functions that make and take apart its
    values. -/
def preludeSource : Source where
  file := "<prelude>"
  text := "\n".intercalate [
    "mod prelude;",
    "",
    "opaque Option(type T);",
    "",
    "builtin fn some(type T)(value: T) -> Option(type T);",
    "builtin fn none(type T)() -> Option(type T);",
    "builtin fn is_some(type T)(opt: Option(type T)) -> bool;",
    "builtin fn is_none(type T)(opt: Option(type T)) -> bool;",
    "builtin fn unwrap(type T)(opt: Option(type T)) -> T;",
    "builtin fn expect(type T)(opt: Option(type T), message: string) -> T;",
    "builtin fn unwrap_or(type T)(opt: Option(type T), default: T) -> T;",
    "builtin fn map(type T, U)(opt: Option(type T), f: fn(T) -> U) -> Option(type U);",
    ""]

/-- What to compile to, and how. -/
structure Options where
  backend : Scalar := .number 0
  withPrelude : Bool := true
  emitEntry : Bool := true
deriving DecidableEq, Repr

/-- Reads source texts in order. -/
def readSources (sources : List Source) : Traced (List Module) :=
  let work := sources.mapM Source.read
  work.andThen fun modules => do
    Traced.note ("parsed " ++ toString modules.length ++ " modules (" ++ toString work.tokens ++ " tokens)")
    return modules

/-- Assembles modules that have been read. -/
def assemble (modules : List Module) (prelude : Option Module) : Traced Graph := do
  let graph ← Graph.build modules prelude
  let names := graph.modules.map (·.name)
  Traced.note ("module graph: " ++ toString names.length ++ " modules (" ++ ", ".intercalate names ++ ")")
  return graph

/-- Reads the prelude, if it is wanted. Its tokens do not count. -/
def readPrelude : Bool → Traced (Option Module)
  | false => return none
  | true => do
    let module_ ← preludeSource.read.uncounted
    return some module_

namespace Options

/-- Reads and assembles a program. -/
def graph (options : Options) (sources : List Source) : Traced Graph := do
  let modules ← readSources sources
  let prelude ← readPrelude options.withPrelude
  assemble modules prelude

/-- Reads and checks a program. -/
def program (options : Options) (sources : List Source) : Traced Program := do
  let graph ← options.graph sources
  let program ← graph.check
  Traced.note ("analysis complete, entry module: " ++ program.entry.getD "None")
  return program

end Options

/-- What a compilation gives. -/
structure Compiled where
  output : String
  program : Program
  backend : String
  tokens : Nat
deriving Repr, Inhabited

/-- The names of the modules that were compiled. -/
def Compiled.modules (compiled : Compiled) : List String :=
  compiled.program.graph.userModules.map (·.name)

/-- Compiles a program for a backend that is known. -/
def Options.compileWith (options : Options) (backends : Backends) (backend : Backend)
    (sources : List Source) : Traced Compiled :=
  let work := options.program sources
  work.andThen fun program => do
    let output ← backends.generate options.backend program options.emitEntry
    return { output, program, backend := backend.name, tokens := work.tokens }

/-- Compiles a program. An unknown backend is refused before anything is read. -/
def Options.compile (options : Options) (backends : Backends) (sources : List Source) : Traced Compiled := do
  let backend ← backends.get options.backend
  options.compileWith backends backend sources

end Smpl
