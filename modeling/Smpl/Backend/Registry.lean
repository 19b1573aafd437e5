import Smpl.Rust.Crate
import Smpl.Syntax.Print

namespace Smpl

namespace Canonical

/-- The canonical texts of modules with a blank line between any two. -/
def texts (modules : List Module) : Except Failure String := do
  let texts ← modules.mapM Module.print
  return "\n".intercalate texts

/-- A program as canonical text. Entry points need nothing more. -/
def generate (program : Program) (_emitEntry : Bool) : Traced String := do
  let modules := program.graph.userModules.map (·.tree)
  let text ← texts modules
  Traced.note ("formatted " ++ toString modules.length ++ " modules")
  return text

end Canonical

/-- Something that writes checked programs in another form. -/
structure Backend where
  id : Scalar
  name : String
  extension : String
  generate : Program → Bool → Traced String

/-- The known backends, in the order of their registration. -/
abbrev Backends := List Backend

namespace Backends

/-- The backends that are always known. -/
def standard : Backends :=
  [⟨.number 0, Rust.backendName, ".rs", Rust.generate⟩, ⟨.number 1, "smpl", ".smpl", Canonical.generate⟩]

/-- Finds a backend. -/
def get (backends : Backends) (id : Scalar) : Except Failure Backend :=
  match backends.find? fun backend => backend.id.same id with
  | some backend => .ok backend
  | none => do
    let cause ← Cause.ofBackend id (backends.map (·.id))
    .error (.diagnostic { cause })

/-- Adds a backend, whose identity must be free. -/
def register (backends : Backends) (backend : Backend) : Except Failure Backends :=
  match backends.find? fun other => other.id.same backend.id with
  | some other => .error (.defect (.backendTaken backend.id other.name))
  | none => .ok (backends ++ [backend])

/-- The backends in order, if there is one. -/
def available (backends : Backends) : Except Failure (List Backend) :=
  (Sorting.sort (fun a b => a.id.before b.id) backends).mapError fun kinds => .defect (.incomparable kinds)

/-- Writes a program with a backend. -/
def generate (backends : Backends) (id : Scalar) (program : Program) (emitEntry : Bool) :
    Traced String := do
  let backend ← backends.get id
  Traced.note ("generating with backend " ++ id.shown ++ " (" ++ backend.name ++ ")")
  let output ← backend.generate program emitEntry
  Traced.note (backend.name ++ " backend produced " ++ toString output.length ++ " characters")
  return output

end Backends

end Smpl
