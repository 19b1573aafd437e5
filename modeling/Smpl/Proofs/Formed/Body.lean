import Smpl.Proofs.Formed.Type
import Smpl.Proofs.Typing.Program

namespace Smpl

open List

/-- The types of all names in reach are formed. -/
def Scope.Formed (graph : Graph) (params : List TypeParam) (scope : Scope) : Prop :=
  ∀ {name symbol}, scope.lookup name = some symbol → symbol.type.Formed graph params

theorem Scope.Formed.push {graph : Graph} {params : List TypeParam} {scope : Scope} (h : scope.Formed graph params) :
    scope.push.Formed graph params := by
  intro name symbol hlookup
  rw [Scope.lookup_push] at hlookup
  exact h hlookup

theorem Scope.formed_of_locals {graph : Graph} {params : List TypeParam} {locals : List Local}
    (h : ∀ symbol ∈ locals, symbol.type.Formed graph params) : (Scope.mk locals.reverse []).Formed graph params := by
  intro name symbol hlookup
  obtain ⟨frame, hframe, hfind⟩ := exists_of_findSome?_eq_some hlookup
  obtain rfl : frame = locals.reverse := mem_singleton.1 hframe
  exact h symbol (mem_reverse.1 (mem_of_find?_eq_some hfind))

/-- A context in a program that was read, with formed types for the type parameters in reach. -/
structure Context.Formed (ctx : Context) (params : List TypeParam) : Prop where
  knows : ctx.Knows
  read : ctx.graph.Read
  typeNames : ctx.site.Formed params

namespace Context.Formed

variable {ctx : Context} {params : List TypeParam} (h : ctx.Formed params) {scope : Scope} {file : String}
include h

theorem resolve {type : TypeExpr} (hread : type.ReadFrom file) {resolved : TypedTypeExpr}
    (hresolved : ctx.typeScope.resolve type = .ok resolved) : resolved.type.Formed ctx.graph params :=
  h.knows.typeScope.formed_of_resolve h.typeNames hread hresolved

/-- Fields of formed types have formed types. -/
theorem chainType {loc : Location} {base type : Ty} {fields : List String}
    (hchain : ctx.chainType loc base fields = .ok type) (hbase : base.Formed ctx.graph params) :
    type.Formed ctx.graph params :=
  (h.knows.chainType_eq_ok_iff.1 hchain).formed h.read hbase

theorem declares {path : Path} {loc : Location} (hpath : path.isMissing = false) {owner : String} {item : Item}
    (hfound : ctx.graph.resolvePath ctx.moduleName path (some loc) = .ok (some (owner, item))) :
    ctx.graph.Declares owner item :=
  ((h.knows.typeScope.resolvePath_eq_ok_iff hpath).1 hfound).declares

/-- The types in the signature of a function are formed, with its own type parameters. -/
theorem signature {owner : String} {item : Item} {header : Header TypeExpr} (hdeclares : ctx.graph.Declares owner item)
    (hheader : item.header? = some header) {signature : Signature}
    (hget : ctx.registry.functions.get ⟨owner, header.name⟩ = .ok signature) :
    (∀ param ∈ signature.params, param.2.Formed ctx.graph signature.typeParams) ∧
      signature.result.Formed ctx.graph signature.typeParams := by
  obtain ⟨htypeParams, hsigns⟩ := h.knows.registry.functions_get_iff hdeclares hheader hget
  rw [htypeParams]
  exact (hsigns.2 ⟨rfl, rfl⟩).formed h.read hdeclares hheader

omit h in
/-- After a declaration with a formed type all types in reach are formed. -/
theorem declare {symbol : Local} (hscope : scope.Formed ctx.graph params)
    (hsymbol : symbol.type.Formed ctx.graph params) :
    (Scope.mk (symbol :: scope.current) scope.outer).Formed ctx.graph params := by
  intro name found hlookup
  rw [Scope.lookup_mk_cons] at hlookup
  split at hlookup
  · cases hlookup
    exact hsymbol
  · exact hscope hlookup

/-- All types in reach stay formed after a statement. -/
theorem scope_of_checksStmt {inLoop : Bool} {stmt : Stmt} (hread : stmt.ReadFrom file)
    (hscope : scope.Formed ctx.graph params) {out : TypedStmt} {scope' : Scope}
    (hchecks : ctx.ChecksStmt inLoop scope stmt out scope') : scope'.Formed ctx.graph params := by
  cases hchecks with
  | letBinding hresolved =>
    cases hread with
    | letBinding _ htype => exact declare hscope (h.resolve htype hresolved)
  | _ => exact hscope

end Context.Formed

namespace Registry.Describes

variable {registry : Registry} (h : registry.Describes) (hread : registry.graph.Read) {owner : String} {item : Item}
  (hdeclares : registry.graph.Declares owner item) {loc : Location} {header : Header TypeExpr}
  {checked : Header TypedTypeExpr} (hchecked : registry.graph.checkHeader registry.types owner loc header = .ok checked)
include h hread hdeclares hchecked

omit hchecked in
/-- The context in which the body of a function is checked. -/
theorem bodyContext_formed :
    (registry.bodyContext owner (Signature.ofHeader owner loc false checked)).Formed (checked.typeParamsOf owner) where
  knows := h.bodyContext_knows hdeclares _
  read := hread
  typeNames := registry.graph.site_formed owner checked

/-- The parameters of a function have formed types, with its type parameters. -/
theorem formed_paramLocals (hheader : item.header? = some header) :
    ∀ symbol ∈ paramLocals checked.params, symbol.type.Formed registry.graph (checked.typeParamsOf owner) := by
  intro symbol hsymbol
  obtain ⟨param, hparam, rfl⟩ := mem_map.1 hsymbol
  obtain ⟨_, _, params, result, hparams, _, rfl⟩ := Graph.checkHeader_eq_ok_iff.1 hchecked
  obtain ⟨file, hitem⟩ := hread.item hdeclares
  exact (h.knows hdeclares _).formed_of_mapM_member (registry.graph.site_formed owner header)
    (hitem.header hheader).params
    hparams param hparam

end Registry.Describes

end Smpl
