namespace Smpl

/-- An item of a module, named from anywhere in the program. -/
structure ItemName where
  moduleName : String
  name : String
deriving DecidableEq, Repr, Inhabited

def ItemName.text (name : ItemName) : String :=
  name.moduleName ++ "::" ++ name.name

/-- Types without parts. `unit` is what a function without result type returns and cannot be written.
    No program has an `other` type. -/
inductive Primitive
  | int
  | float
  | bool
  | string
  | unit
  | other (name : String)
deriving DecidableEq, Repr, Inhabited

def Primitive.text : Primitive → String
  | .int => "int"
  | .float => "float"
  | .bool => "bool"
  | .string => "string"
  | .unit => "unit"
  | .other name => name

/-- The primitive type that a name in a written type denotes. -/
def Primitive.ofName? : String → Option Primitive
  | "int" => some .int
  | "float" => some .float
  | "bool" => some .bool
  | "string" => some .string
  | _ => none

/-- The names of the primitive types that can be written. -/
def primitiveNames : List String :=
  ["int", "float", "bool", "string"]

/-- An abstract type bound by a generic function, which its owner names. -/
structure TypeParam where
  owner : String
  name : String
deriving DecidableEq, Repr, Inhabited

/-- The types that programs are checked with. Two types are the same exactly if they are equal. -/
inductive Ty
  | primitive (type : Primitive)
  | struct (name : ItemName)
  | opaqueType (name : ItemName) (args : List Ty)
  | param (name : TypeParam)
  | array (element : Ty) (length : Int)
  | function (params : List Ty) (result : Ty)
  | reference (target : Ty)
deriving Repr, Inhabited

namespace Ty

def int : Ty := .primitive .int

def float : Ty := .primitive .float

def bool : Ty := .primitive .bool

def string : Ty := .primitive .string

def unit : Ty := .primitive .unit

end Ty

mutual

/-- Whether two types are equal, decided by walking both. -/
def Ty.beq : Ty → Ty → Bool
  | .primitive p, .primitive q => p = q
  | .struct m, .struct n => m = n
  | .opaqueType m as, .opaqueType n bs => m = n && Ty.beqList as bs
  | .param p, .param q => p = q
  | .array s m, .array t n => s.beq t && m = n
  | .function as r, .function bs s => Ty.beqList as bs && r.beq s
  | .reference s, .reference t => s.beq t
  | _, _ => false

def Ty.beqList : List Ty → List Ty → Bool
  | [], [] => true
  | a :: as, b :: bs => a.beq b && Ty.beqList as bs
  | _, _ => false

end

mutual

theorem Ty.beq_iff_eq : ∀ s t : Ty, s.beq t = true ↔ s = t
  | .primitive p, t => by cases t <;> simp [Ty.beq]
  | .struct m, t => by cases t <;> simp [Ty.beq]
  | .opaqueType m as, t => by
    cases t with
    | opaqueType n bs => simp [Ty.beq, Ty.beqList_iff_eq as bs]
    | _ => simp [Ty.beq]
  | .param p, t => by cases t <;> simp [Ty.beq]
  | .array s m, t => by
    cases t with
    | array t n => simp [Ty.beq, Ty.beq_iff_eq s t]
    | _ => simp [Ty.beq]
  | .function as r, t => by
    cases t with
    | function bs s => simp [Ty.beq, Ty.beqList_iff_eq as bs, Ty.beq_iff_eq r s]
    | _ => simp [Ty.beq]
  | .reference s, t => by
    cases t with
    | reference t => simp [Ty.beq, Ty.beq_iff_eq s t]
    | _ => simp [Ty.beq]

theorem Ty.beqList_iff_eq : ∀ as bs : List Ty, Ty.beqList as bs = true ↔ as = bs
  | [], bs => by cases bs <;> simp [Ty.beqList]
  | a :: as, [] => by simp [Ty.beqList]
  | a :: as, b :: bs => by simp [Ty.beqList, Ty.beq_iff_eq a b, Ty.beqList_iff_eq as bs]

end

instance : DecidableEq Ty := fun s t => decidable_of_iff _ (Ty.beq_iff_eq s t)

mutual

/-- How messages name a type. Opaque types go without their module, and a function that returns
    nothing without an arrow. -/
def Ty.text : Ty → String
  | .primitive type => type.text
  | .struct name => name.text
  | .opaqueType name [] => name.name
  | .opaqueType name (arg :: args) =>
    name.name ++ "(type " ++ ", ".intercalate (arg.text :: Ty.texts args) ++ ")"
  | .param name => name.name
  | .array element length => "[" ++ element.text ++ "; " ++ toString length ++ "]"
  | .function params result =>
    "fn(" ++ ", ".intercalate (Ty.texts params) ++ ")" ++
      (if result = .unit then "" else " -> " ++ result.text)
  | .reference target => "&" ++ target.text

def Ty.texts : List Ty → List String
  | [] => []
  | type :: types => type.text :: Ty.texts types

end

def Ty.isNumeric (type : Ty) : Bool :=
  type = .int || type = .float

/-- Whether values of a type can be compared for equality. -/
def Ty.isPrimitive : Ty → Bool
  | .primitive type => type ≠ .unit
  | _ => false

mutual

/-- Replaces every type parameter by its image, all at once. -/
def Ty.subst (images : TypeParam → Ty) : Ty → Ty
  | .primitive type => .primitive type
  | .struct name => .struct name
  | .opaqueType name args => .opaqueType name (Ty.substList images args)
  | .param name => images name
  | .array element length => .array (element.subst images) length
  | .function params result => .function (Ty.substList images params) (result.subst images)
  | .reference target => .reference (target.subst images)

def Ty.substList (images : TypeParam → Ty) : List Ty → List Ty
  | [] => []
  | type :: types => type.subst images :: Ty.substList images types

end

/-- The images given by a list of pairs, of which later ones win. Other parameters stay. -/
def imagesOf (pairs : List (TypeParam × Ty)) (param : TypeParam) : Ty :=
  (pairs.reverse.lookup param).getD (.param param)

end Smpl
