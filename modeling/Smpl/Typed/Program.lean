import Smpl.Traced
import Smpl.Typed.Stmt

namespace Smpl

/-- A checked program. -/
structure Program where
  registry : Registry
  modules : List TypedModule
  entry : Option String
deriving Repr, Inhabited

/-- The name of the function that a program starts with. -/
def entryName : String := "main"

namespace Graph

/-- The modules of the input that declare an entry point, each with the signature of it. -/
def entryPoints (graph : Graph) (signatures : List Signature) : List (String × Signature) :=
  graph.userModules.filterMap fun module_ =>
    match module_.item? entryName with
    | some (.function _ _ _) =>
      (signatures.find? fun signature => signature.name = ⟨module_.name, entryName⟩).map (module_.name, ·)
    | _ => none

/-- Finds the module with the entry point. There may be one at most, and it takes and returns
    nothing. -/
def entryModule (graph : Graph) (signatures : List Signature) : Except Failure (Option String) :=
  match graph.entryPoints signatures with
  | [] => .ok none
  | [(name, signature)] =>
    if signature.isGeneric then
      refuse (.typeMismatch .entryPoint (some (Ty.function [] .unit).text) (some "generic fn")) signature.loc
    else if signature.type ≠ .function [] .unit then
      refuse
        (.typeMismatch .entryPoint (some (Ty.function [] .unit).text) (some signature.type.text))
        signature.loc
    else .ok (some name)
  | points@(_ :: (_, second) :: _) => refuse (.multipleEntryPoints (points.map (·.1))) second.loc

end Graph

/-- The parameters of a function as its body sees them. -/
def paramLocals (params : List (Member TypedTypeExpr)) : List Local :=
  params.map fun param => ⟨param.name, param.type.type, param.loc, true⟩

/-- Checks the body of a function with some parameters. -/
def Context.body (ctx : Context) (loc : Location) (params : List Local) (body : Block Stmt) :
    Except Failure (Block TypedStmt) := do
  let scope ← params.foldlM Scope.declare Scope.empty
  let checked ← ctx.block false scope body
  if ctx.result ≠ .unit ∧ !blockReturns body then
    refuse (.missingReturn ctx.functionName ctx.result.text) loc
  return checked

namespace Registry

/-- Where the body of a function is checked. -/
def bodyContext (registry : Registry) (moduleName : String) (signature : Signature) : Context :=
  ⟨registry, moduleName, typeNamesOf signature.typeParams, signature.name.name, signature.result⟩

/-- Checks an item of a module. -/
def checkItem (registry : Registry) (moduleName : String) : Item → Except Failure TypedItem
  | .use loc name => return .use loc name
  | .struct loc name fields => do
    let declared ← registry.types.structs.get ⟨moduleName, name⟩
    if declared.name ≠ ⟨moduleName, name⟩ then return .eclipsed loc name fields
    let fields ← (TypeScope.mk registry.graph registry.types moduleName []).fields name [] fields
    return .struct loc name fields
  | .opaqueType loc name typeParams => return .opaqueType loc name typeParams
  | .function loc header body => do
    let header ← registry.graph.checkHeader registry.types moduleName loc header
    let signature := Signature.ofHeader moduleName loc false header
    let body ← (registry.bodyContext moduleName signature).body loc (paramLocals header.params) body
    return .function loc header body signature
  | .builtin loc header => do
    let header ← registry.graph.checkHeader registry.types moduleName loc header
    return .builtin loc header (Signature.ofHeader moduleName loc true header)
  | .other loc name => return .other loc name

def checkModule (registry : Registry) (module_ : GraphModule) : Except Failure TypedModule := do
  let items ← module_.tree.items.mapM (registry.checkItem module_.name)
  return {
    name := module_.name
    loc := module_.tree.loc
    declaredName := module_.tree.name
    items
    file := module_.tree.file
    isPrelude := module_.isPrelude }

def checkModules (registry : Registry) : Except Failure (List TypedModule) :=
  registry.graph.modules.mapM registry.checkModule

end Registry

namespace Graph

def functionCount (graph : Graph) : Nat :=
  graph.items.countP fun (_, item) => item.meaning = .function

/-- Checks a program: first all declarations, then the entry point, then the function bodies. -/
def check (graph : Graph) : Traced Program := do
  let types ← graph.declaredTypes
  Traced.note ("registered " ++ toString types.structs.size ++ " structs, " ++ toString types.opaques.size ++
    " opaque types")
  let structs ← graph.structs types
  let signatures ← graph.signatures types
  let functions := functionTable signatures
  Traced.note ("registered " ++ toString functions.size ++ " function signatures")
  let entry ← graph.entryModule signatures
  if let some name := entry then
    Traced.note ("entry point: " ++ (ItemName.mk name entryName).text)
  let registry : Registry := ⟨graph, types, structs, functions⟩
  let modules ← registry.checkModules
  Traced.note ("checked " ++ toString graph.functionCount ++ " function bodies")
  return { registry, modules, entry }

end Graph

namespace Program

def graph (program : Program) : Graph :=
  program.registry.graph

/-- The checked modules of the input. -/
def userModules (program : Program) : List TypedModule :=
  program.modules.filter fun module_ => !module_.isPrelude

end Program

/-- A module as its program is asked about it: one of the program's own, or a tree read apart. -/
inductive ModuleHandle
  | own (place : Nat)
  | apart (tree : Module)
deriving Repr, Inhabited

/-- The name of a module in a program. Trees read apart have none, whatever they hold. -/
def Program.nameOf (program : Program) : ModuleHandle → Except Failure String
  | .own place =>
    match program.modules.drop place with
    | module_ :: _ => .ok module_.name
    | [] => .error (.defect (.missingKey none))
  | .apart tree => .error (.defect (.missingKey tree.name))

end Smpl
