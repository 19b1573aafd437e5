import Smpl.Text.Similar
import Smpl.Typed.Declared
import Smpl.Typed.Tree

namespace Smpl

/-- Refuses a type that its context does not allow, where there is no type to compare it with. -/
def mismatch {α : Type} (what : Mismatch) (loc : Location) : Except Failure α :=
  refuse (.typeMismatch what none none) loc

/-- Requires a type to be exactly the expected one. -/
def expectType (what : Mismatch) (expected found : Ty) (loc : Location) : Except Failure Unit :=
  if expected = found then .ok ()
  else refuse (.typeMismatch what (some expected.text) (some found.text)) loc

/-- Requires a number of type arguments. -/
def expectTypeArgs (name : String) (expected actual : Nat) (loc : Location) : Except Failure Unit :=
  if actual = expected then .ok ()
  else refuse (.arityMismatch name expected actual "type argument") loc

/-- The failure of a look-up without a path. -/
def missingPath : Defect :=
  .missingPart "is_qualified"

def Item.meaning : Item → Meaning
  | .struct _ _ _ => .structType
  | .opaqueType _ _ _ => .opaqueType
  | .function _ _ _ => .function
  | .builtin _ _ => .builtinFunction
  | .use _ _ | .other _ _ => .moduleItem

/-- Where a type is written: the module, and what the type parameters around stand for. -/
structure TypeScope where
  graph : Graph
  types : DeclaredTypes
  moduleName : String
  typeNames : List (String × Ty)
deriving Repr, Inhabited

namespace TypeScope

/-- The type that a name has without asking the modules. -/
def simple? (scope : TypeScope) (path : Path) : Except Failure (Option Ty) :=
  if path.isMissing then .error (.defect missingPath)
  else if path.isQualified then .ok none
  else .ok (((Primitive.ofName? path.name).map .primitive).or (scope.typeNames.lookup path.name))

/-- Refuses a name that no type has. -/
def undefinedType {α : Type} (scope : TypeScope) (path : Path) (loc : Location) : Except Failure α := do
  if !path.isQualified && scope.graph.contains path.name then
    mismatch (.wrongMeaning path.text .module .type) loc
  let visible ← scope.graph.visibleNames scope.moduleName
  let candidates := primitiveNames ++ scope.typeNames.map (·.1) ++ visible
  refuse (.undefinedSymbol path.text (Text.similar path.name candidates) "type") loc

mutual

/-- Finds the type that a written type denotes. -/
def resolve (scope : TypeScope) : TypeExpr → Except Failure TypedTypeExpr
  | .named loc path args => do
    match ← scope.simple? path with
    | some type =>
      expectTypeArgs path.name 0 args.length loc
      return .named loc path [] type
    | none =>
      match ← scope.graph.resolvePath scope.moduleName path (some loc) with
      | none => scope.undefinedType path loc
      | some (owner, .struct _ name _) =>
        expectTypeArgs path.text 0 args.length loc
        let declared ← scope.types.structs.get ⟨owner, name⟩
        return .named loc path [] (.struct declared.name)
      | some (owner, .opaqueType _ name _) =>
        let declared ← scope.types.opaques.get ⟨owner, name⟩
        expectTypeArgs path.text declared.typeParams.length args.length loc
        let args ← scope.resolveList args
        return .named loc path args (.opaqueType ⟨owner, name⟩ (args.map (·.type)))
      | some (_, item) => mismatch (.wrongMeaning path.text item.meaning .type) loc
  | .array loc element length => do
    let element ← scope.resolve element
    return .array loc element length (.array element.type length)
  | .function loc params result => do
    let params ← scope.resolveList params
    let result ← scope.resolveOption result
    let type := .function (params.map (·.type)) ((result.map (·.type)).getD .unit)
    return .function loc params result type
  | .unknown node => .error (.defect (.unknownTypeExpr node))

def resolveList (scope : TypeScope) : List TypeExpr → Except Failure (List TypedTypeExpr)
  | [] => return []
  | type :: types => do
    let type ← scope.resolve type
    let types ← scope.resolveList types
    return type :: types

def resolveOption (scope : TypeScope) : Option TypeExpr → Except Failure (Option TypedTypeExpr)
  | none => return none
  | some type => do
    let type ← scope.resolve type
    return some type

end

end TypeScope

end Smpl
