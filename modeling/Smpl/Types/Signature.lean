import Smpl.Location
import Smpl.Types.Basic

namespace Smpl

/-- What a function or builtin function takes and returns, and where it is declared. -/
structure Signature where
  name : ItemName
  typeParams : List TypeParam
  params : List (String × Ty)
  result : Ty
  isBuiltin : Bool
  loc : Location
deriving Repr, Inhabited

namespace Signature

def isGeneric (signature : Signature) : Bool :=
  !signature.typeParams.isEmpty

def paramTypes (signature : Signature) : List Ty :=
  signature.params.map (·.2)

/-- The type of the function used as a value. -/
def type (signature : Signature) : Ty :=
  .function signature.paramTypes signature.result

/-- The parameter types and the result type for explicit type arguments. -/
def instantiate (signature : Signature) (typeArgs : List Ty) : List Ty × Ty :=
  let images := imagesOf (signature.typeParams.zip typeArgs)
  (Ty.substList images signature.paramTypes, signature.result.subst images)

end Signature

/-- A struct with its field types, in the order of their declaration. -/
structure StructInfo where
  name : ItemName
  fields : List (String × Ty)
  loc : Location
deriving Repr, Inhabited

def StructInfo.fieldType? (info : StructInfo) (field : String) : Option Ty :=
  info.fields.lookup field

def StructInfo.fieldNames (info : StructInfo) : List String :=
  info.fields.map (·.1)

/-- An opaque type constructor with the names of its parameters. -/
structure OpaqueInfo where
  name : ItemName
  typeParams : List String
deriving Repr, Inhabited

end Smpl
