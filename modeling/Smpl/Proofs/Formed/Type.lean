import Smpl.Proofs.Generic.Subst
import Smpl.Proofs.Grammar.ReadFrom
import Smpl.Proofs.Typing.Registry

namespace Smpl

open List

/-- A type that makes sense in a program: its structs and opaque types are declared, opaque types have
    as many arguments as they declare, arrays have elements, and all type parameters are among the
    given ones. -/
inductive Ty.Formed (graph : Graph) (params : List TypeParam) : Ty → Prop
  | primitive {type : Primitive} : (∀ name, type ≠ .other name) → Formed graph params (.primitive type)
  | struct {name : ItemName} {loc : Location} {fields : List (Member TypeExpr)} :
    graph.Declares name.moduleName (.struct loc name.name fields) → Formed graph params (.struct name)
  | opaqueType {name : ItemName} {loc : Location} {typeParams : List String} {args : List Ty} :
    graph.Declares name.moduleName (.opaqueType loc name.name typeParams) → args.length = typeParams.length →
    (∀ arg ∈ args, arg.Formed graph params) → Formed graph params (.opaqueType name args)
  | param {param : TypeParam} : param ∈ params → Formed graph params (.param param)
  | array {element : Ty} {length : Int} :
    element.Formed graph params → 0 < length → Formed graph params (.array element length)
  | function {types : List Ty} {result : Ty} :
    (∀ type ∈ types, type.Formed graph params) → result.Formed graph params →
      Formed graph params (.function types result)
  | reference {target : Ty} : target.Formed graph params → Formed graph params (.reference target)

namespace Ty.Formed

variable {graph : Graph} {params params' : List TypeParam} {type : Ty}

theorem unit : Ty.unit.Formed graph params :=
  .primitive nofun

theorem bool : Ty.bool.Formed graph params :=
  .primitive nofun

/-- A type stays formed if its parameters are replaced by formed types. -/
theorem subst (h : type.Formed graph params) {images : TypeParam → Ty}
    (himages : ∀ param ∈ params, (images param).Formed graph params') : (type.subst images).Formed graph params' := by
  induction h with
  | primitive hprimitive => exact .primitive hprimitive
  | struct hdeclares => exact .struct hdeclares
  | opaqueType hdeclares hlength _ hargs =>
    rw [Ty.subst, Ty.substList_eq_map]
    refine .opaqueType hdeclares (by rwa [length_map]) fun arg harg => ?_
    obtain ⟨arg, hmem, rfl⟩ := mem_map.1 harg
    exact hargs arg hmem
  | param hparam => exact himages _ hparam
  | array _ hlength helement => exact .array helement hlength
  | function _ _ htypes hresult =>
    rw [Ty.subst, Ty.substList_eq_map]
    refine .function (fun type htype => ?_) hresult
    obtain ⟨type, hmem, rfl⟩ := mem_map.1 htype
    exact htypes type hmem
  | reference _ htarget => exact .reference htarget

/-- More type parameters keep a type formed. -/
theorem mono (h : type.Formed graph params) (hparams : params ⊆ params') : type.Formed graph params' := by
  have hsubst : (type.subst .param).Formed graph params' := h.subst fun param hparam => .param (hparams hparam)
  rwa [Ty.subst_param] at hsubst

end Ty.Formed

/-- All modules of a program were read from their files. -/
def Graph.Read (graph : Graph) : Prop :=
  ∀ module_ ∈ graph.modules, module_.tree.ReadFrom module_.tree.file

/-- Declared items were read from a file. -/
theorem Graph.Read.item {graph : Graph} (h : graph.Read) {owner : String} {item : Item}
    (hdeclares : graph.Declares owner item) :
    ∃ file, item.ReadFrom file := by
  obtain ⟨module_, hmodule, _, hitem, _⟩ := hdeclares
  exact ⟨_, (h module_ hmodule).items item hitem⟩

theorem Item.ReadFrom.header {file : String} {item : Item} (h : item.ReadFrom file) {header : Header TypeExpr}
    (hheader : item.header? = some header) : header.ReadFrom file := by
  cases h with
  | function _ hfile | builtin _ hfile =>
    cases hheader
    exact hfile
  | _ => cases hheader

/-- The types that names stand for at a place are formed. -/
def Site.Formed (site : Site) (params : List TypeParam) : Prop :=
  ∀ entry ∈ site.typeNames, entry.2.Formed site.graph params

theorem Site.formed_nil (graph : Graph) (owner : String) : (Site.mk graph owner []).Formed [] :=
  forall_mem_nil _

theorem Graph.site_formed {T : Type} (graph : Graph) (owner : String) (header : Header T) :
    (graph.site owner header).Formed (header.typeParamsOf owner) := by
  intro entry hentry
  obtain ⟨param, hparam, rfl⟩ := mem_map.1 hentry
  exact .param hparam

section

variable {site : Site} {params : List TypeParam} {file : String}

theorem Primitive.ofName?_ne_other {name other : String} : Primitive.ofName? name ≠ some (.other other) := by
  unfold Primitive.ofName?
  split <;> nofun

/-- What a written type denotes is formed. -/
theorem Denotes.formed (hsite : site.Formed params) {type : TypeExpr} (hread : type.ReadFrom file) {denoted : Ty}
    (h : Denotes site type denoted) : denoted.Formed site.graph params := by
  have hlist : ∀ {types : List TypeExpr} {parts : List Ty},
      (∀ type ∈ types, ∀ {denoted : Ty}, Denotes site type denoted → denoted.Formed site.graph params) →
      Forall₂ (Denotes site) types parts → ∀ part ∈ parts, part.Formed site.graph params := by
    intro types parts hformed hparts part hpart
    obtain ⟨type, htype, hdenotes⟩ := exists_of_forall₂_of_mem hparts.flip hpart
    exact hformed type htype hdenotes
  induction hread generalizing denoted with
  | named _ _ _ hargs =>
    cases h with
    | primitive hname => exact .primitive fun other heq => Primitive.ofName?_ne_other (heq ▸ hname)
    | typeName _ hname => exact hsite _ (mem_of_lookup hname)
    | struct _ hmeans => exact .struct hmeans.declares
    | opaqueType _ hmeans hlength htypes =>
      exact .opaqueType hmeans.declares (htypes.length_eq ▸ hlength) (hlist hargs htypes)
  | array _ _ hlength helement =>
    cases h with
    | array hdenotes => exact .array (helement hdenotes) hlength
  | function _ _ _ hparams hresult =>
    cases h with
    | procedure htypes => exact .function (hlist hparams htypes) .unit
    | function htypes hdenotes => exact .function (hlist hparams htypes) (hresult _ rfl hdenotes)

theorem DenotesMembers.formed (hsite : site.Formed params) {members : List (Member TypeExpr)}
    (hread : ∀ member ∈ members, member.ReadFrom file) {types : List (String × Ty)}
    (h : DenotesMembers site members types) : ∀ entry ∈ types, entry.2.Formed site.graph params := by
  intro entry hentry
  obtain ⟨member, hmember, _, hdenotes⟩ := exists_of_forall₂_of_mem h.flip hentry
  exact hdenotes.formed hsite (hread member hmember).type

theorem DenotesResult.formed (hsite : site.Formed params) {result : Option TypeExpr}
    (hread : ∀ type ∈ result, type.ReadFrom file) {denoted : Ty} (h : DenotesResult site result denoted) :
    denoted.Formed site.graph params := by
  cases result with
  | none =>
    obtain rfl : denoted = .unit := h
    exact .unit
  | some type => exact Denotes.formed hsite (hread type rfl) h

end

namespace TypeScope.Knows

variable {scope : TypeScope} (h : scope.Knows) {params : List TypeParam} (hsite : scope.site.Formed params)
  {file : String}
include h hsite

/-- What a written type that was read is resolved to is formed. -/
theorem formed_of_resolve {type : TypeExpr} (hread : type.ReadFrom file) {resolved : TypedTypeExpr}
    (hresolved : scope.resolve type = .ok resolved) : resolved.type.Formed scope.graph params :=
  Denotes.formed hsite hread ((h.agrees _ _).1 ⟨_, hresolved, rfl⟩)

/-- The types that fields and parameters are resolved to are formed. -/
theorem formed_of_mapM_member {members : List (Member TypeExpr)} (hread : ∀ member ∈ members, member.ReadFrom file)
    {resolved : List (Member TypedTypeExpr)} (hresolved : members.mapM scope.member = .ok resolved) :
    ∀ member ∈ resolved, member.type.type.Formed scope.graph params := by
  intro member hmember
  obtain ⟨written, hwritten, type, htype, rfl⟩ := TypeScope.exists_of_mem_members hresolved hmember
  exact h.formed_of_resolve hsite (hread written hwritten).type htype

end TypeScope.Knows

namespace Graph

variable {graph : Graph} (hread : graph.Read)
include hread

/-- Types of fields are formed, without type parameters. -/
theorem HasField.formed {struct : ItemName} {field : String} {type : Ty} (h : graph.HasField struct field type)
    (params : List TypeParam) : type.Formed graph params := by
  obtain ⟨loc, fields, hdeclares, member, hmember, _, hdenotes⟩ := h
  obtain ⟨file, hitem⟩ := hread.item hdeclares
  cases hitem with
  | struct _ hfields =>
    exact (hdenotes.formed (Site.formed_nil graph _) (hfields member hmember).type).mono (nil_subset params)

/-- A chain of fields leads from a formed type to a formed type. -/
theorem Reaches.formed {base type : Ty} {fields : List String} (h : graph.Reaches base fields type)
    {params : List TypeParam} (hbase : base.Formed graph params) : type.Formed graph params := by
  induction h with
  | nil => exact hbase
  | cons hfield _ ih => exact ih (hfield.formed hread params)

/-- The types in a signature are formed, with the type parameters of its function. -/
theorem Signs.formed {owner : String} {item : Item} {header : Header TypeExpr} (hdeclares : graph.Declares owner item)
    (hheader : item.header? = some header) {types : List (String × Ty)} {result : Ty}
    (h : graph.Signs owner header types result) :
    (∀ entry ∈ types, entry.2.Formed graph (header.typeParamsOf owner)) ∧
      result.Formed graph (header.typeParamsOf owner) := by
  obtain ⟨file, hitem⟩ := hread.item hdeclares
  have hfile := hitem.header hheader
  exact ⟨h.params.formed (graph.site_formed owner header) hfile.params,
    h.result.formed (graph.site_formed owner header) hfile.result⟩

end Graph

/-- The images of type parameters under as many formed types are formed. -/
theorem formed_imagesOf {graph : Graph} {params params' : List TypeParam} {types : List Ty}
    (hlength : types.length = params.length) (htypes : ∀ type ∈ types, type.Formed graph params') {param : TypeParam}
    (hparam : param ∈ params) : (imagesOf (params.zip types) param).Formed graph params' := by
  obtain ⟨image, himage, hlookup⟩ := exists_lookup_zip hlength hparam
  rw [imagesOf, hlookup]
  exact htypes image himage

end Smpl
