import Mathlib.Data.List.Forall2
import Mathlib.Data.List.Perm.Basic
import Mathlib.Logic.Function.Basic
import Smpl.Typed.Program

namespace Smpl

namespace Graph

/-- A module of the program declares an item. Uses declare nothing. -/
def Declares (graph : Graph) (owner : String) (item : Item) : Prop :=
  ∃ module_ ∈ graph.modules, module_.name = owner ∧ item ∈ module_.tree.items ∧ item.isUse = false

/-- A module uses another one. -/
def Uses (graph : Graph) (viewer owner : String) : Prop :=
  ∃ module_ ∈ graph.modules, module_.name = viewer ∧ ∃ loc, Item.use loc owner ∈ module_.tree.items

/-- The item that a path means inside a module, with the module that declares it. A bare name means
    an item of the module itself, or else of the only used module that has one, or else of the
    prelude. -/
inductive Means (graph : Graph) (viewer : String) : Path → String → Item → Prop
  | own {item : Item} : graph.Declares viewer item → Means graph viewer (.bare item.name) viewer item
  | used {owner : String} {item : Item} :
    (∀ own, graph.Declares viewer own → own.name ≠ item.name) → graph.Uses viewer owner → graph.Declares owner item →
    (∀ owner' item', graph.Uses viewer owner' → graph.Declares owner' item' → item'.name = item.name → owner' = owner) →
    Means graph viewer (.bare item.name) owner item
  | prelude {owner : String} {item : Item} :
    (∀ own, graph.Declares viewer own → own.name ≠ item.name) →
    (∀ owner' item', graph.Uses viewer owner' → graph.Declares owner' item' → item'.name ≠ item.name) →
    graph.prelude = some owner → graph.Declares owner item → Means graph viewer (.bare item.name) owner item
  | qualified {owner : String} {item : Item} :
    graph.Declares owner item → Means graph viewer ⟨[owner], item.name, false⟩ owner item

end Graph

/-- A place in a program: the module, and what the type parameters in reach stand for. -/
structure Site where
  graph : Graph
  moduleName : String
  typeNames : List (String × Ty)

/-- A path in the place of a type that is neither a primitive type nor a type parameter. -/
def Site.NamesItem (site : Site) (path : Path) : Prop :=
  path.modules = [] → Primitive.ofName? path.name = none ∧ site.typeNames.lookup path.name = none

/-- The type that a written type denotes. -/
inductive Denotes (site : Site) : TypeExpr → Ty → Prop
  | primitive {loc : Location} {name : String} {type : Primitive} :
    Primitive.ofName? name = some type → Denotes site (.named loc (.bare name) []) (.primitive type)
  | typeName {loc : Location} {name : String} {type : Ty} :
    Primitive.ofName? name = none → site.typeNames.lookup name = some type →
    Denotes site (.named loc (.bare name) []) type
  | struct {loc loc' : Location} {path : Path} {owner name : String} {fields : List (Member TypeExpr)} :
    site.NamesItem path → site.graph.Means site.moduleName path owner (.struct loc' name fields) →
    Denotes site (.named loc path []) (.struct ⟨owner, name⟩)
  | opaqueType {loc loc' : Location} {path : Path} {owner name : String} {typeParams : List String}
      {args : List TypeExpr} {types : List Ty} :
    site.NamesItem path → site.graph.Means site.moduleName path owner (.opaqueType loc' name typeParams) →
    args.length = typeParams.length → List.Forall₂ (Denotes site) args types →
    Denotes site (.named loc path args) (.opaqueType ⟨owner, name⟩ types)
  | array {loc : Location} {element : TypeExpr} {length : Int} {type : Ty} :
    Denotes site element type → Denotes site (.array loc element length) (.array type length)
  | procedure {loc : Location} {params : List TypeExpr} {types : List Ty} :
    List.Forall₂ (Denotes site) params types → Denotes site (.function loc params none) (.function types .unit)
  | function {loc : Location} {params : List TypeExpr} {result : TypeExpr} {types : List Ty} {type : Ty} :
    List.Forall₂ (Denotes site) params types → Denotes site result type →
    Denotes site (.function loc params (some result)) (.function types type)

/-- The result type that a header gives. Without one nothing is returned. -/
def DenotesResult (site : Site) : Option TypeExpr → Ty → Prop
  | none, type => type = .unit
  | some result, type => Denotes site result type

/-- The names and types of fields or parameters. -/
def DenotesMembers (site : Site) (members : List (Member TypeExpr)) (types : List (String × Ty)) : Prop :=
  List.Forall₂ (fun member type => member.name = type.1 ∧ Denotes site member.type type.2) members types

/-- What a function or builtin function declares. -/
def Item.header? : Item → Option (Header TypeExpr)
  | .function _ header _ | .builtin _ header => some header
  | _ => none

namespace Graph

/-- The place where a function is declared. -/
def site {T : Type} (graph : Graph) (owner : String) (header : Header T) : Site :=
  ⟨graph, owner, typeNamesOf (header.typeParamsOf owner)⟩

/-- What the parameters and the result of a function in a module are. -/
structure Signs (graph : Graph) (owner : String) (header : Header TypeExpr) (params : List (String × Ty))
    (result : Ty) : Prop where
  params : DenotesMembers (graph.site owner header) header.params params
  result : DenotesResult (graph.site owner header) header.result result

/-- A field of a declared struct, with its type. -/
def HasField (graph : Graph) (struct : ItemName) (field : String) (type : Ty) : Prop :=
  ∃ loc fields, graph.Declares struct.moduleName (.struct loc struct.name fields) ∧
    ∃ member ∈ fields, member.name = field ∧ Denotes ⟨graph, struct.moduleName, []⟩ member.type type

/-- The type at the end of a chain of fields. -/
inductive Reaches (graph : Graph) : Ty → List String → Ty → Prop
  | nil {type : Ty} : Reaches graph type [] type
  | cons {struct : ItemName} {field : String} {fields : List String} {type target : Ty} :
    graph.HasField struct field type → Reaches graph type fields target →
    Reaches graph (.struct struct) (field :: fields) target

end Graph

/-- The parameters and bindings in reach, with their types. -/
abbrev Vars := String → Option Ty

/-- A path that no parameter or binding in reach has for its name. -/
def Vars.Misses (vars : Vars) (path : Path) : Prop :=
  path.modules = [] → vars path.name = none

/-- The typing rules for expressions. -/
inductive HasType (site : Site) (vars : Vars) : Expr → Ty → Prop
  | literal {loc : Location} {value : Literal} : HasType site vars (.literal loc value) value.type
  | bound {loc : Location} {name : String} {type : Ty} :
    vars name = some type → HasType site vars (.binding loc (.bare name)) type
  | function {loc : Location} {path : Path} {owner : String} {item : Item} {header : Header TypeExpr}
      {params : List (String × Ty)} {result : Ty} :
    vars.Misses path → site.graph.Means site.moduleName path owner item → item.header? = some header →
    header.typeParams = [] → site.graph.Signs owner header params result →
    HasType site vars (.binding loc path) (.function (params.map (·.2)) result)
  | field {loc : Location} {root : String} {fields : List String} {base type : Ty} :
    vars root = some base → site.graph.Reaches base fields type → HasType site vars (.field loc root fields) type
  | callBound {loc : Location} {name : String} {args : List Expr} {params : List Ty} {result : Ty} :
    vars name = some (.function params result) → List.Forall₂ (HasType site vars) args params →
    HasType site vars (.call loc (.bare name) [] args) result
  | callFunction {loc : Location} {path : Path} {typeArgs : List TypeExpr} {args : List Expr} {owner : String}
      {item : Item} {header : Header TypeExpr} {types : List Ty} {params : List (String × Ty)} {result : Ty} :
    vars.Misses path → site.graph.Means site.moduleName path owner item → item.header? = some header →
    typeArgs.length = header.typeParams.length → List.Forall₂ (Denotes site) typeArgs types →
    site.graph.Signs owner header params result →
    List.Forall₂ (HasType site vars) args
      (params.map fun param => param.2.subst (imagesOf ((header.typeParamsOf owner).zip types))) →
    HasType site vars (.call loc path typeArgs args)
      (result.subst (imagesOf ((header.typeParamsOf owner).zip types)))
  | init {loc loc' : Location} {path : Path} {fields : List (FieldInit Expr)} {owner name : String}
      {members : List (Member TypeExpr)} {types : String → Ty} :
    site.NamesItem path → site.graph.Means site.moduleName path owner (.struct loc' name members) →
    (fields.map (·.name)).Perm (members.map (·.name)) →
    (∀ field ∈ fields, site.graph.HasField ⟨owner, name⟩ field.name (types field.name)) →
    (∀ field ∈ fields, HasType site vars field.value (types field.name)) →
    HasType site vars (.init loc path fields) (.struct ⟨owner, name⟩)
  | negate {loc : Location} {operand : Expr} {type : Ty} :
    type = .int ∨ type = .float → HasType site vars operand type → HasType site vars (.unary loc .negate operand) type
  | not {loc : Location} {operand : Expr} :
    HasType site vars operand .bool → HasType site vars (.unary loc .not operand) .bool
  | reference {loc : Location} {operand : Expr} {type : Ty} :
    HasType site vars operand type → HasType site vars (.unary loc .reference operand) (.reference type)
  | dereference {loc : Location} {operand : Expr} {type : Ty} :
    HasType site vars operand (.reference type) → HasType site vars (.unary loc .dereference operand) type
  | arithmetic {loc : Location} {op : BinaryOp} {left right : Expr} {type : Ty} :
    op ∈ [.add, .subtract, .multiply, .divide, .modulo] → type = .int ∨ type = .float →
    HasType site vars left type → HasType site vars right type → HasType site vars (.binary loc op left right) type
  | relational {loc : Location} {op : BinaryOp} {left right : Expr} {type : Ty} :
    op ∈ [.less, .greater, .lessEqual, .greaterEqual] → type = .int ∨ type = .float →
    HasType site vars left type → HasType site vars right type → HasType site vars (.binary loc op left right) .bool
  | equality {loc : Location} {op : BinaryOp} {left right : Expr} {type : Primitive} :
    op ∈ [.equal, .notEqual] → type ≠ .unit → HasType site vars left (.primitive type) →
    HasType site vars right (.primitive type) → HasType site vars (.binary loc op left right) .bool
  | logical {loc : Location} {op : BinaryOp} {left right : Expr} :
    op ∈ [.and, .or] → HasType site vars left .bool → HasType site vars right .bool →
    HasType site vars (.binary loc op left right) .bool
  | paren {loc : Location} {inner : Expr} {type : Ty} :
    HasType site vars inner type → HasType site vars (.paren loc inner) type

/-- The statements that may stand one after the other in a function that returns values of a type.
    `inLoop` tells whether a loop is around them, and `taken` holds the names that their block has
    declared before. A binding is in reach after its statement only. -/
inductive Admits (site : Site) (result : Ty) : Bool → Vars → List String → List Stmt → Prop
  | nil {inLoop : Bool} {vars : Vars} {taken : List String} : Admits site result inLoop vars taken []
  | block {inLoop : Bool} {vars : Vars} {taken : List String} {body : Block Stmt} {rest : List Stmt} :
    Admits site result inLoop vars [] body.statements → Admits site result inLoop vars taken rest →
    Admits site result inLoop vars taken (.block body :: rest)
  | letBinding {inLoop : Bool} {vars : Vars} {taken : List String} {loc : Location} {name : String} {type : TypeExpr}
      {value : Expr} {rest : List Stmt} {denoted : Ty} :
    Denotes site type denoted → HasType site vars value denoted → name ∉ taken →
    Admits site result inLoop (Function.update vars name (some denoted)) (name :: taken) rest →
    Admits site result inLoop vars taken (.letBinding loc name type value :: rest)
  | assign {inLoop : Bool} {vars : Vars} {taken : List String} {loc : Location} {target : String}
      {fields : List String} {value : Expr} {rest : List Stmt} {base type : Ty} :
    vars target = some base → site.graph.Reaches base fields type → HasType site vars value type →
    Admits site result inLoop vars taken rest →
      Admits site result inLoop vars taken (.assign loc target fields value :: rest)
  | ifChain {inLoop : Bool} {vars : Vars} {taken : List String} {loc : Location} {branches : List (Branch Expr Stmt)}
      {otherwise : Option (Block Stmt)} {rest : List Stmt} :
    (∀ branch ∈ branches, HasType site vars branch.condition .bool) →
    (∀ branch ∈ branches, Admits site result inLoop vars [] branch.body.statements) →
    (∀ body ∈ otherwise, Admits site result inLoop vars [] body.statements) →
    Admits site result inLoop vars taken rest →
      Admits site result inLoop vars taken (.ifChain loc branches otherwise :: rest)
  | whileLoop {inLoop : Bool} {vars : Vars} {taken : List String} {loc : Location} {condition : Expr}
      {body : Block Stmt} {rest : List Stmt} :
    HasType site vars condition .bool → Admits site result true vars [] body.statements →
    Admits site result inLoop vars taken rest →
      Admits site result inLoop vars taken (.whileLoop loc condition body :: rest)
  | returnNothing {inLoop : Bool} {vars : Vars} {taken : List String} {loc : Location} {rest : List Stmt} :
    result = .unit → Admits site result inLoop vars taken rest →
    Admits site result inLoop vars taken (.returnValue loc none :: rest)
  | returnValue {inLoop : Bool} {vars : Vars} {taken : List String} {loc : Location} {value : Expr} {rest : List Stmt} :
    result ≠ .unit → HasType site vars value result → Admits site result inLoop vars taken rest →
    Admits site result inLoop vars taken (.returnValue loc (some value) :: rest)
  | breakLoop {vars : Vars} {taken : List String} {loc : Location} {rest : List Stmt} :
    Admits site result true vars taken rest → Admits site result true vars taken (.breakLoop loc :: rest)
  | continueLoop {vars : Vars} {taken : List String} {loc : Location} {rest : List Stmt} :
    Admits site result true vars taken rest → Admits site result true vars taken (.continueLoop loc :: rest)
  | expression {inLoop : Bool} {vars : Vars} {taken : List String} {loc : Location} {value : Expr} {rest : List Stmt}
      {type : Ty} :
    HasType site vars value type → Admits site result inLoop vars taken rest →
    Admits site result inLoop vars taken (.expression loc value :: rest)

/-- Statements with a return on every path. Loops may be left or not entered. -/
inductive AlwaysReturn : List Stmt → Prop
  | here {loc : Location} {value : Option Expr} {rest : List Stmt} : AlwaysReturn (.returnValue loc value :: rest)
  | block {body : Block Stmt} {rest : List Stmt} : AlwaysReturn body.statements → AlwaysReturn (.block body :: rest)
  | ifChain {loc : Location} {branches : List (Branch Expr Stmt)} {otherwise : Block Stmt} {rest : List Stmt} :
    (∀ branch ∈ branches, AlwaysReturn branch.body.statements) → AlwaysReturn otherwise.statements →
    AlwaysReturn (.ifChain loc branches (some otherwise) :: rest)
  | later {stmt : Stmt} {rest : List Stmt} : AlwaysReturn rest → AlwaysReturn (stmt :: rest)

/-- Names that type parameters may have together. -/
structure DistinctTypeNames (names : List String) : Prop where
  nodup : names.Nodup
  primitive : ∀ name ∈ names, Primitive.ofName? name = none

namespace Graph

/-- An input module has a function that a program can start with, by its name. -/
def HasEntry (graph : Graph) (owner : String) (header : Header TypeExpr) : Prop :=
  ∃ module_ ∈ graph.modules, module_.isPrelude = false ∧ module_.name = owner ∧
    ∃ loc body, Item.function loc header body ∈ module_.tree.items ∧ header.name = entryName

/-- The rules for a whole program. -/
structure WellTyped (graph : Graph) : Prop where
  opaqueTypes : ∀ {owner loc name typeParams}, graph.Declares owner (.opaqueType loc name typeParams) →
    DistinctTypeNames typeParams
  structs : ∀ {owner loc name fields}, graph.Declares owner (.struct loc name fields) →
    (fields.map (·.name)).Nodup ∧ ∀ field ∈ fields, ∃ type, Denotes ⟨graph, owner, []⟩ field.type type
  headers : ∀ {owner item header}, graph.Declares owner item → item.header? = some header →
    DistinctTypeNames header.typeParams ∧ (header.params.map (·.name)).Nodup ∧
      ∃ params result, graph.Signs owner header params result
  bodies : ∀ {owner loc header body}, graph.Declares owner (.function loc header body) →
    ∃ params result, graph.Signs owner header params result ∧
      Admits (graph.site owner header) result false (params.lookup ·) [] body.statements ∧
      (result ≠ .unit → AlwaysReturn body.statements)
  oneEntry : ∀ {owner owner' header header'}, graph.HasEntry owner header → graph.HasEntry owner' header' →
    owner = owner'
  entry : ∀ {owner header}, graph.HasEntry owner header →
    header.typeParams = [] ∧ header.params = [] ∧ header.result = none

end Graph

end Smpl
