import Smpl.Parse.Module
import Smpl.Proofs.Generic.Resolution
import Smpl.Proofs.Typing.Program

namespace Smpl

/-- Where the type parameters of a body stand for other types, all is found as where they stand for themselves. The
    types may not make a result of nothing. -/
theorem Registry.Closed.respells {registry : Registry} (h : registry.Closed) (owner : String) {signature : Signature}
    {images : TypeParam → Ty} (hresult : signature.result ≠ .unit → signature.result.subst images ≠ .unit) :
    (registry.bodyContext owner signature).Respells false images
      ⟨registry, owner, signature.typeParams.map fun param => (param.name, images param), signature.name.name,
        signature.result.subst images⟩ := by
  refine Context.respells_of_found (TypeScope.respells_of_found ?_ (fun _ => id) id id) (fun _ => id) id id
    (h.fixes images) rfl ⟨not_imp_not.1 hresult, congrArg (Ty.subst images)⟩
  simp [Context.typeScope, Registry.bodyContext, typeNamesOf, Function.comp_def, Ty.subst]

namespace Graph

/-- A body that was checked with its type parameters abstract is checked in the same way with any types
    of values in their place, and all types that are found are the instances of those found before. -/
theorem body_subst_of_check {graph : Graph} {program : Program} (h : graph.check.outcome = .ok program)
    {module_ : TypedModule} (hmodule : module_ ∈ program.modules) {loc : Location} {header : Header TypedTypeExpr}
    {body : Block TypedStmt} {signature : Signature}
    (hitem : TypedItem.function loc header body signature ∈ module_.items) (images : TypeParam → Ty)
    (himages : ∀ param ∈ signature.typeParams, images param ≠ .unit) :
    (Context.mk program.registry module_.name (signature.typeParams.map fun param => (param.name, .param param))
      header.name signature.result).body loc (paramLocals header.params) (eraseBlock body) = .ok body ∧
    (Context.mk program.registry module_.name (signature.typeParams.map fun param => (param.name, images param))
      header.name (signature.result.subst images)).body loc ((paramLocals header.params).map (Local.subst images))
        (eraseBlock body) = .ok (substBlock images body) ∧
    ∀ vars e, TypedStmt.Holds (signature.params.lookup ·) body.statements vars e →
      (e.subst images).type = e.type.subst images := by
  have hclosed := closed_of_check h
  obtain ⟨types, structs, signatures, _, _, _, _, _, hmodules⟩ := check_eq_ok_iff.1 h
  obtain ⟨owner, _, hname, item, _, hchecks⟩ := Registry.exists_checksItem hmodules hmodule hitem
  have herase := hchecks.erase
  rw [← hname]
  cases hchecks with
  | @function _ written _ _ _ hchecked hbody =>
    obtain ⟨_, _, hblock⟩ := Item.function.inj herase
    rw [hblock]
    have hresult : (Signature.ofHeader owner.name loc false header).result ≠ .unit →
        (Signature.ofHeader owner.name loc false header).result.subst images ≠ .unit := fun hunit =>
      Ty.subst_ne_unit hunit fun param hparam => himages param ((closed_of_checkHeader hchecked).result param hparam)
    have hrespells := hclosed.respells owner.name hresult
    refine ⟨hbody, ?_, ?_⟩
    · have hrun := hrespells.body hbody
      rw [spelledBlock_false, hblock] at hrun
      exact hrun
    · intro vars e hholds
      obtain ⟨scope, e', _, he'⟩ := Context.exists_expr_of_body hbody hholds
      have htype := (hrespells.expr e' he').2
      rwa [TypedExpr.spelled_false] at htype

/-- A generic function that calls another one, with an array in the place of its parameter. -/
theorem body_subst_of_check_array :
    ∃ tree graph program module_ loc header body signature,
      Module.ofSource "a"
        "fn id(type T)(x: T) -> T {return x;} fn f(type T)(a: T) -> T {let b: T = id(type T)(a); return b;}" =
        .ok tree ∧
      Graph.build [tree] none = .ok graph ∧ graph.check.outcome = .ok program ∧ module_ ∈ program.modules ∧
      TypedItem.function loc header body signature ∈ module_.items ∧ header.name = "f" ∧
      (Context.mk program.registry module_.name (signature.typeParams.map fun param => (param.name, .array .float 3))
        "f" (signature.result.subst fun _ => .array .float 3)).body loc
          ((paramLocals header.params).map (Local.subst fun _ => .array .float 3)) (eraseBlock body) =
        .ok (substBlock (fun _ => .array .float 3) body) := by
  simp only [exists_and_left]
  refine exists_ok₃ (p := fun _ _ program => program.modules.any fun module_ => module_.items.any fun
    | .function _ header _ _ => header.name = "f"
    | _ => false) (by decide +kernel) fun tree graph program _ _ hcheck hany => ?_
  obtain ⟨module_, hmodule, hany⟩ := List.any_eq_true.1 hany
  obtain ⟨item, hitem, hname⟩ := List.any_eq_true.1 hany
  cases item with
  | function loc header body signature =>
    have hname : header.name = "f" := of_decide_eq_true hname
    obtain ⟨_, hrun, _⟩ := body_subst_of_check hcheck hmodule hitem (fun _ => .array .float 3) (fun _ _ => nofun)
    rw [hname] at hrun
    exact ⟨module_, hmodule, loc, header, body, signature, hitem, hname, hrun⟩
  | _ => cases hname

end Graph

end Smpl
