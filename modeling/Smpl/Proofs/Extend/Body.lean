import Smpl.Proofs.Extend.Declaration

namespace Smpl

/-- All that is found where a body is checked is found in another place. -/
structure Context.Extends (ctx ctx' : Context) : Prop where
  scope : ctx.typeScope.Extends ctx'.typeScope
  structs : ∀ {name info}, ctx.registry.structs.get name = .ok info → ctx'.registry.structs.get name = .ok info
  functions : ∀ {name signature}, ctx.registry.functions.get name = .ok signature →
    ctx'.registry.functions.get name = .ok signature
  result : ctx'.result = ctx.result

namespace Context.Extends

variable {ctx ctx' : Context} (h : ctx.Extends ctx')
include h

theorem respells : ctx.Respells false .param ctx' :=
  respells_of_found h.scope.respells h.scope.path h.structs h.functions (Registry.fixes_param _) (by simp [h.result])
    (by rw [h.result])

/-- A checked body is checked in the same way where more is found. -/
theorem body {loc : Location} {locals : List Local} {body : Block Stmt} {out : Block TypedStmt}
    (hout : ctx.body loc locals body = .ok out) : ctx'.body loc locals body = .ok out := by
  have hsame := h.respells.body hout
  rwa [funext Local.subst_param, List.map_id', spelledBlock_false, substBlock_param,
    erase_of_block (erase_of_stmts _) (Context.body_eq_ok_iff.1 hout).2.1] at hsame

end Context.Extends

/-- All that is found from a module in a registry is found in another one. -/
structure Registry.ExtendsAt (registry registry' : Registry) (owner : String) : Prop where
  scope : registry.graph.ExtendsAt registry.types registry'.graph registry'.types owner
  structs : ∀ {name info}, registry.structs.get name = .ok info → registry'.structs.get name = .ok info
  functions : ∀ {name signature}, registry.functions.get name = .ok signature →
    registry'.functions.get name = .ok signature

namespace Registry.ExtendsAt

variable {registry registry' : Registry} {owner : String} (h : registry.ExtendsAt registry' owner)
include h

/-- The body of a function is checked where more is found. -/
theorem bodyContext (signature : Signature) :
    (registry.bodyContext owner signature).Extends (registry'.bodyContext owner signature) where
  scope := h.scope _
  structs := h.structs
  functions := h.functions
  result := rfl

/-- A checked item is checked in the same way where more is found. -/
theorem checkItem {item : Item} {out : TypedItem} (hout : registry.checkItem owner item = .ok out) :
    registry'.checkItem owner item = .ok out := by
  rw [checkItem_eq_ok_iff] at hout ⊢
  cases hout with
  | use => exact .use
  | struct hget hname hnames hresolved =>
    exact .struct ((h.scope []).structs hget) hname hnames ((h.scope []).mapM_member hresolved)
  | eclipsed hget hname => exact .eclipsed ((h.scope []).structs hget) hname
  | opaqueType => exact .opaqueType
  | function hchecked hbody => exact .function (h.scope.checkHeader hchecked) ((h.bodyContext _).body hbody)
  | builtin hchecked => exact .builtin (h.scope.checkHeader hchecked)
  | other => exact .other

end Registry.ExtendsAt

end Smpl
