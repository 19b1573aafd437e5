import Smpl.Typed.TypeExpr

namespace Smpl

namespace TypeScope

/-- Resolves the fields of a struct, whose names must differ. -/
def fields (scope : TypeScope) (struct : String) :
    List String → List (Member TypeExpr) → Except Failure (List (Member TypedTypeExpr))
  | _, [] => return []
  | seen, field :: others => do
    if seen.contains field.name then refuse (.duplicateField struct field.name) field.loc
    let type ← scope.resolve field.type
    let others ← scope.fields struct (field.name :: seen) others
    return { field with type } :: others

/-- Resolves the parameters of a function, whose names must differ. -/
def params (scope : TypeScope) :
    List (Member TypeExpr) → List (Member TypeExpr) → Except Failure (List (Member TypedTypeExpr))
  | _, [] => return []
  | seen, param :: others => do
    if let some first := seen.find? fun other => other.name = param.name then
      refuse (.duplicateDeclaration param.name (some first.loc) none) param.loc
    let type ← scope.resolve param.type
    let others ← scope.params (param :: seen) others
    return { param with type } :: others

end TypeScope

/-- The abstract types that a function binds. -/
def Header.typeParamsOf {T : Type} (header : Header T) (moduleName : String) : List TypeParam :=
  header.typeParams.map fun name => ⟨(ItemName.mk moduleName header.name).text, name⟩

/-- The names of type parameters with the types they stand for. -/
def typeNamesOf (params : List TypeParam) : List (String × Ty) :=
  params.map fun param => (param.name, .param param)

/-- Resolves the types in the header of a function. -/
def Graph.checkHeader (graph : Graph) (types : DeclaredTypes) (moduleName : String) (loc : Location)
    (header : Header TypeExpr) : Except Failure (Header TypedTypeExpr) := do
  checkTypeParams loc [] header.typeParams
  let scope : TypeScope := ⟨graph, types, moduleName, typeNamesOf (header.typeParamsOf moduleName)⟩
  let params ← scope.params [] header.params
  let result ← scope.resolveOption header.result
  return { header with params, result }

/-- The signature that a header gives its function. -/
def Signature.ofHeader (moduleName : String) (loc : Location) (isBuiltin : Bool)
    (header : Header TypedTypeExpr) : Signature where
  name := ⟨moduleName, header.name⟩
  typeParams := header.typeParamsOf moduleName
  params := header.params.map fun param => (param.name, param.type.type)
  result := (header.result.map (·.type)).getD .unit
  isBuiltin := isBuiltin
  loc := loc

namespace Graph

/-- Resolves the field types of a declared struct. -/
def structInfo (graph : Graph) (types : DeclaredTypes) (struct : StructDecl) : Except Failure StructInfo := do
  let fields ← (TypeScope.mk graph types struct.name.moduleName []).fields struct.name.name [] struct.fields
  return ⟨struct.name, fields.map fun field => (field.name, field.type.type), struct.loc⟩

def structs (graph : Graph) (types : DeclaredTypes) : Except Failure (Table StructInfo) :=
  types.structs.mapM (graph.structInfo types)

/-- The signature of an item, if it is a function. -/
def signature? (graph : Graph) (types : DeclaredTypes) : String × Item → Except Failure (List Signature)
  | (owner, .function loc header _) => do
    let header ← graph.checkHeader types owner loc header
    return [Signature.ofHeader owner loc false header]
  | (owner, .builtin loc header) => do
    let header ← graph.checkHeader types owner loc header
    return [Signature.ofHeader owner loc true header]
  | _ => return []

/-- The signatures of all functions in order. -/
def signatures (graph : Graph) (types : DeclaredTypes) : Except Failure (List Signature) :=
  (graph.items.mapM (graph.signature? types)).map List.flatten

end Graph

/-- Signatures under the full names of their functions. -/
def functionTable (signatures : List Signature) : Table Signature :=
  signatures.foldl (fun table signature => table.put signature.name.text signature) .empty

/-- The declarations of a program that function bodies are checked against. -/
structure Registry where
  graph : Graph
  types : DeclaredTypes
  structs : Table StructInfo
  functions : Table Signature
deriving Repr, Inhabited

end Smpl
