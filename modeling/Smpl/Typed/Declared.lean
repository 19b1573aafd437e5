import Smpl.Graph.Basic
import Smpl.Types.Signature
import Smpl.Types.Table

namespace Smpl

/-- All items of all modules in order, each with the name of its module. -/
def Graph.items (graph : Graph) : List (String × Item) :=
  graph.modules.flatMap fun module_ => module_.tree.items.map (module_.name, ·)

/-- Checks the names of type parameters: none is a primitive type and none is repeated. -/
def checkTypeParams (loc : Location) : List String → List String → Except Failure Unit
  | _, [] => .ok ()
  | seen, name :: names =>
    if primitiveNames.contains name then
      refuse
        (.duplicateDeclaration name none
          (some ("'" ++ name ++ "' is a builtin type and cannot name a type parameter"))) loc
    else if seen.contains name then refuse (.duplicateDeclaration name none none) loc
    else checkTypeParams loc (name :: seen) names

/-- The value under a text, which the caller takes for granted. -/
def Table.require {α : Type} (table : Table α) (key : String) : Except Failure α :=
  match table.find? key with
  | some value => .ok value
  | none => .error (.defect (.missingKey (some key)))

/-- The value under the full name of an item. -/
def Table.get {α : Type} (table : Table α) (name : ItemName) : Except Failure α :=
  table.require name.text

/-- A struct as it is declared. -/
structure StructDecl where
  name : ItemName
  fields : List (Member TypeExpr)
  loc : Location
deriving Repr, Inhabited

/-- The types that modules declare. If two have the same full name, only the later one is known. -/
structure DeclaredTypes where
  structs : Table StructDecl
  opaques : Table OpaqueInfo
deriving Repr, Inhabited

/-- Adds what an item of a module declares, if that is a type. -/
def DeclaredTypes.add (types : DeclaredTypes) : String × Item → Except Failure DeclaredTypes
  | (owner, .struct loc name fields) =>
    let full : ItemName := ⟨owner, name⟩
    .ok { types with structs := types.structs.put full.text ⟨full, fields, loc⟩ }
  | (owner, .opaqueType loc name typeParams) => do
    checkTypeParams loc [] typeParams
    let full : ItemName := ⟨owner, name⟩
    return { types with opaques := types.opaques.put full.text ⟨full, typeParams⟩ }
  | _ => .ok types

def Graph.declaredTypes (graph : Graph) : Except Failure DeclaredTypes :=
  graph.items.foldlM DeclaredTypes.add ⟨.empty, .empty⟩

end Smpl
