import Smpl.Proofs.Decorated.Scoping
import Smpl.Proofs.Rust.Containment
import Smpl.Rust.Crate

namespace Smpl

open List

namespace TypedNode

variable {prelude : Option String} {nodes : List TypedNode} {node : TypedNode}

/-- What the Rust text of a node needs, besides that of the nodes inside it. -/
def HasText (prelude : Option String) : TypedNode → Prop
  | .expr (.binding _ _ (.function signature)) => signature.isBuiltin = false
  | .expr (.call _ _ _ _ (.function signature) _) =>
    signature.isBuiltin = true → some signature.name.moduleName = prelude
  | .item (.opaqueType _ _ _) => False
  | _ => True

/-- All of the nodes have what their Rust text needs. -/
def HaveText (prelude : Option String) (nodes : List TypedNode) : Prop :=
  ∀ node ∈ nodes, node.HasText prelude

theorem haveText_append_iff {nodes' : List TypedNode} :
    HaveText prelude (nodes ++ nodes') ↔ HaveText prelude nodes ∧ HaveText prelude nodes' :=
  forall_mem_append

/-- A node that needs nothing itself leaves what the nodes inside it need. -/
theorem haveText_iff_cons (h : node.HasText prelude) : HaveText prelude nodes ↔ HaveText prelude (node :: nodes) :=
  (forall_mem_cons.trans (and_iff_right h)).symm

theorem haveText_cons (h : node.HasText prelude) (hnodes : HaveText prelude nodes) : HaveText prelude (node :: nodes) :=
  forall_mem_cons.2 ⟨h, hnodes⟩

theorem haveText_singleton (h : node.HasText prelude) : HaveText prelude [node] :=
  forall_mem_singleton.2 h

theorem haveText_nodes (type : TypedTypeExpr) : HaveText prelude type.nodes :=
  type.forall_mem_nodes fun _ => trivial

theorem haveText_headerNodes (header : Header TypedTypeExpr) : HaveText prelude (headerNodes header) :=
  forall_mem_headerNodes (fun _ _ => trivial) (fun _ => trivial) header

end TypedNode

/-- Every statement of a checked block was checked. -/
theorem Context.exists_checksStmt_of_mem {ctx : Context} {inLoop : Bool} {scope : Scope} {written : Block Stmt}
    {block : Block TypedStmt} {out : TypedStmt} (hblock : ctx.block inLoop scope written = .ok block)
    (hout : out ∈ block.statements) : ∃ scope stmt scope', ctx.ChecksStmt inLoop scope stmt out scope' := by
  obtain ⟨before, after, hsplit⟩ := append_of_mem hout
  exact ⟨_, exists_checksStmt (hsplit ▸ (block_eq_ok_iff.1 hblock).1)⟩

/-- Only the prelude declares opaque types. -/
def Graph.OpaquesInPrelude (graph : Graph) : Prop :=
  ∀ {owner loc name typeParams}, graph.Declares owner (.opaqueType loc name typeParams) → graph.prelude = some owner

namespace Rust

/-- A step of the backend fails only where a construct has no Rust text. Under a condition it succeeds just if what it
    needs is there. -/
structure Lowered {α : Type} (given needs : Prop) (x : Except Failure α) : Prop where
  fails : FailsOnly IsLowering x
  exists_iff : given → ((∃ a, x = .ok a) ↔ needs)

namespace Lowered

variable {α β : Type} {given needs needs' : Prop} {x : Except Failure α}

theorem ok_of_needs (hneeds : needs) (a : α) : Lowered given needs (.ok a) :=
  ⟨.ok a, fun _ => iff_of_true ⟨a, rfl⟩ hneeds⟩

theorem ok (a : α) : Lowered given True (.ok a) :=
  ok_of_needs trivial a

theorem cannotLower (construct : Construct) (loc : Option Location) (hint : Option String) :
    Lowered given False (cannotLower construct loc hint : Except Failure α) where
  fails := failsOnly_cannotLower construct loc hint
  exists_iff _ := by simp [Rust.cannotLower]

theorem congr (h : Lowered given needs x) (hneeds : given → (needs ↔ needs')) : Lowered given needs' x :=
  ⟨h.fails, fun hgiven => (h.exists_iff hgiven).trans (hneeds hgiven)⟩

/-- Two steps in a row need what each of them needs. -/
theorem bind {next : α → Except Failure β} (hx : Lowered given needs x)
    (hnext : ∀ a, x = .ok a → Lowered given needs' (next a)) : Lowered given (needs ∧ needs') (x >>= next) where
  fails := hx.fails.bind fun a ha => (hnext a ha).fails
  exists_iff hgiven := by
    rw [← hx.exists_iff hgiven]
    constructor
    · rintro ⟨b, hb⟩
      obtain ⟨a, ha, hb⟩ := bind_eq_ok_iff.1 hb
      exact ⟨⟨a, ha⟩, ((hnext a ha).exists_iff hgiven).1 ⟨b, hb⟩⟩
    · rintro ⟨⟨a, ha⟩, hneeds⟩
      obtain ⟨b, hb⟩ := ((hnext a ha).exists_iff hgiven).2 hneeds
      exact ⟨b, bind_eq_ok_iff.2 ⟨a, ha, hb⟩⟩

theorem bind_pure (hx : Lowered given needs x) (f : α → β) : Lowered given needs (x >>= fun a => pure (f a)) :=
  (hx.bind fun a _ => ok (f a)).congr fun _ => and_iff_left trivial

theorem ite {p : Prop} [Decidable p] {y : Except Failure α} (hx : p → Lowered given needs x)
    (hy : ¬p → Lowered given needs y) : Lowered given needs (if p then x else y) := by
  split
  · next hp => exact hx hp
  · next hp => exact hy hp

/-- A loop needs what all its steps need. -/
theorem mapM {needs : α → Prop} {f : α → Except Failure β} {as : List α} (h : ∀ a ∈ as, Lowered given (needs a) (f a)) :
    Lowered given (∀ a ∈ as, needs a) (as.mapM f) where
  fails := .mapM fun a ha => (h a ha).fails
  exists_iff hgiven := by
    rw [exists_mapM_iff]
    exact forall₂_congr fun a ha => (h a ha).exists_iff hgiven

end Lowered

/-- A step of the backend whose text needs that of some nodes, as long as opaque types come from the prelude. -/
abbrev LoweredNodes {α : Type} (registry : Registry) (nodes : List TypedNode) (x : Except Failure α) : Prop :=
  Lowered registry.graph.OpaquesInPrelude (TypedNode.HaveText registry.graph.prelude nodes) x

/-- A call of a builtin function has Rust text of its own: the function is one of these, and is given the arguments
    that its text is made of. -/
def HasLowering (name : String) (typeArgs args : Nat) : Prop :=
  name = "some" ∧ 0 < args ∨ name = "none" ∧ 0 < typeArgs ∨
    name ∈ optionMethods ∧ 0 < args ∧ (name = "expect" → 1 < args)

instance (name : String) (typeArgs args : Nat) : Decidable (HasLowering name typeArgs args) :=
  inferInstanceAs (Decidable (_ ∨ _ ∨ _))

namespace HasLowering

variable {name : String} {typeArgs args : Nat} (h : HasLowering name typeArgs args)
include h

theorem args_pos_of_some (hname : name = "some") : 0 < args := by
  rcases h with ⟨_, hargs⟩ | ⟨hnone, _⟩ | ⟨_, hargs, _⟩
  · exact hargs
  · exact absurd (hname.symm.trans hnone) (by decide)
  · exact hargs

theorem typeArgs_pos_of_none (hname : name = "none") : 0 < typeArgs := by
  rcases h with ⟨hsome, _⟩ | ⟨_, htypeArgs⟩ | ⟨hmethod, _⟩
  · exact absurd (hname.symm.trans hsome) (by decide)
  · exact htypeArgs
  · rw [hname] at hmethod
    exact absurd hmethod (by decide)

theorem method_of_ne (hsome : name ≠ "some") (hnone : name ≠ "none") :
    name ∈ optionMethods ∧ 0 < args ∧ (name = "expect" → 1 < args) := by
  rcases h with ⟨hname, _⟩ | ⟨hname, _⟩ | hmethod
  · exact absurd hname hsome
  · exact absurd hname hnone
  · exact hmethod

end HasLowering

/-- An item of a prelude that has Rust text wherever it is used. -/
def Intrinsic : Item → Prop
  | .opaqueType _ name typeParams => name = "Option" ∧ 0 < typeParams.length
  | .builtin _ header => HasLowering header.name header.typeParams.length header.params.length
  | _ => False

instance : DecidablePred Intrinsic
  | .opaqueType _ name typeParams => inferInstanceAs (Decidable (name = "Option" ∧ 0 < typeParams.length))
  | .builtin _ _ => inferInstanceAs (Decidable (HasLowering _ _ _))
  | .use _ _ | .struct _ _ _ | .function _ _ _ | .other _ _ => .isFalse id

/-- What the backend takes for granted of a registry: its tables are those of its modules, and all that the prelude
    declares has Rust text. -/
structure Lowers (registry : Registry) (signatures : List Signature) : Prop extends registry.Tabulates signatures where
  preludeName : ∀ owner ∈ registry.graph.prelude, ':' ∉ owner.toList
  intrinsics : ∀ {owner item}, registry.graph.prelude = some owner → registry.graph.Declares owner item → Intrinsic item

section

variable {kind name : String} {loc : Location}

theorem failsOnly_checkSpelling : FailsOnly IsLowering (checkSpelling kind name loc) :=
  .ite (fun _ => failsOnly_cannotLower _ _ _) fun _ => .ok ()

theorem failsOnly_checkName : FailsOnly IsLowering (checkName kind name loc) :=
  .bind failsOnly_checkSpelling fun _ _ => .ite (fun _ => failsOnly_cannotLower _ _ _) fun _ => .pure _

theorem failsOnly_checkItemNames {item : TypedItem} : FailsOnly IsLowering (checkItemNames item) := by
  refine .bind failsOnly_checkName fun _ _ => ?_
  split
  · exact .forM fun _ _ => failsOnly_checkSpelling
  · exact .forM fun _ _ => failsOnly_checkSpelling
  · exact .bind (.forM fun _ _ => failsOnly_checkName) fun _ _ =>
      .bind (.forM fun _ _ => failsOnly_checkName) fun _ _ => .forM fun _ _ => failsOnly_checkName
  · exact .bind (.forM fun _ _ => failsOnly_checkName) fun _ _ => .forM fun _ _ => failsOnly_checkName
  · exact .pure _

end

theorem Setting.types_eq_mapM (setting : Setting) (loc : Option Location) (types : List Ty) :
    setting.types loc types = types.mapM (setting.type loc) :=
  eq_mapM_of_cons rfl fun _ _ => rfl

theorem Setting.exprs_eq_mapM (setting : Setting) (es : List TypedExpr) : setting.exprs es = es.mapM setting.expr :=
  eq_mapM_of_cons rfl fun _ _ => rfl

theorem Ty.holdsList_eq_flatMap (types : List Ty) : Ty.holdsList types = types.flatMap Ty.holds :=
  eq_flatMap_of_cons rfl fun _ _ => rfl

end Rust

variable {graph : Graph} {types : DeclaredTypes}

/-- The structs that a written type holds are declared. -/
theorem TypeScope.known_of_resolve {owner : String} (hkeyed : types.structs.Keyed StructDecl.name) (type : TypeExpr)
    {resolved : TypedTypeExpr} (hresolved : (TypeScope.mk graph types owner []).resolve type = .ok resolved) :
    ∀ part ∈ resolved.type.holds, ∃ decl, types.structs.find? part = some decl := by
  induction type using TypeExpr.induct generalizing resolved with
  | named loc path args hargs =>
    cases TypeScope.resolve_named_eq_ok_iff.1 hresolved with
    | simple hsimple =>
      rcases TypeScope.simple?_eq_ok_some_iff.1 hsimple with ⟨_, hprimitive⟩ | ⟨_, _, hlookup⟩
      · obtain ⟨_, _, rfl⟩ := Option.map_eq_some_iff.1 hprimitive
        exact forall_mem_nil _
      · cases hlookup
    | struct _ _ hget =>
      have hfind := Table.get_eq_ok_iff.1 hget
      rw [← hkeyed.text hfind] at hfind
      exact forall_mem_singleton.2 ⟨_, hfind⟩
    | opaqueType _ _ _ _ hparts =>
      rw [TypedTypeExpr.type, Ty.holds, Rust.Ty.holdsList_eq_flatMap]
      exact forall_mem_flatMap.2 (forall_mem_map.2 (forall_mem_of_mapM hargs hparts))
  | array loc element length helement =>
    obtain ⟨resolvedElement, helementResolved, rfl⟩ := TypeScope.resolve_array_eq_ok_iff.1 hresolved
    exact fun part hpart => helement helementResolved part hpart
  | function loc params result =>
    obtain ⟨_, _, _, _, rfl⟩ := TypeScope.resolve_function_eq_ok_iff.1 hresolved
    exact forall_mem_nil _
  | unknown node => cases hresolved

/-- The parts of the structs that modules declare are known. -/
theorem Graph.complete_of_structs {structs : Table StructInfo} (htypes : graph.declaredTypes = .ok types)
    (hstructs : graph.structs types = .ok structs) : Rust.Complete structs := by
  have hkeyed : types.structs.Keyed StructDecl.name := by
    rw [(Graph.declaredTypes_eq_ok_iff.1 htypes).2]
    exact .byName _ _
  intro key info hfind part hpart
  obtain ⟨decl, _, hinfo⟩ := (Table.find?_of_mapM hstructs).1 hfind
  obtain ⟨_, fields, hfields, rfl⟩ := Graph.structInfo_eq_ok_iff.1 hinfo
  obtain ⟨_, hentry, hpart⟩ := mem_flatMap.1 hpart
  obtain ⟨field, hfield, rfl⟩ := mem_map.1 hentry
  obtain ⟨written, _, type, htype, rfl⟩ := TypeScope.exists_of_mem_members hfields hfield
  obtain ⟨decl', hdecl'⟩ := TypeScope.known_of_resolve hkeyed written.type htype part hpart
  obtain ⟨info', hinfo'⟩ := Table.exists_mapM_iff.1 ⟨_, hstructs⟩ _ (Table.mem_of_find? hdecl')
  exact ⟨info', (Table.find?_of_mapM hstructs).2 ⟨decl', hdecl', hinfo'⟩⟩

namespace Rust

namespace Lowers

open TypedNode

variable {registry : Registry} {signatures : List Signature} (h : Lowers registry signatures)
include h

/-- The prelude's `Option` has a type parameter, however it was found. -/
theorem typeParams_pos {owner : String} (howner : registry.graph.prelude = some owner) {info : OpaqueInfo}
    (hget : registry.types.opaques.get ⟨owner, "Option"⟩ = .ok info) : 0 < info.typeParams.length := by
  obtain ⟨htext, loc, hdeclares⟩ := h.opaque_declares (Table.get_eq_ok_iff.1 hget)
  have hname : ':' ∉ "Option".toList := by decide
  have hplain : (ItemName.mk owner "Option").IsPlain := ⟨h.preludeName owner howner, hname⟩
  rw [← hplain.eq_of_text_eq htext.symm] at hdeclares
  exact (h.intrinsics howner hdeclares).2

/-- If only the prelude declares opaque types, all of them are its `Option`. -/
theorem eq_option (hgiven : registry.graph.OpaquesInPrelude) {name : ItemName} {info : OpaqueInfo}
    (hget : registry.types.opaques.get name = .ok info) :
    some name.moduleName = registry.graph.prelude ∧ name.name = "Option" := by
  obtain ⟨htext, loc, hdeclares⟩ := h.opaque_declares (Table.get_eq_ok_iff.1 hget)
  have howner := hgiven hdeclares
  have hoption := (h.intrinsics howner hdeclares).1
  have hplain : info.name.IsPlain := ⟨h.preludeName _ howner, hoption ▸ by decide⟩
  obtain rfl := hplain.eq_of_text_eq htext
  exact ⟨howner.symm, hoption⟩

/-- The calls of a builtin function of the prelude have Rust text. -/
theorem hasLowering {signature : Signature} (hmem : signature ∈ signatures) (hbuiltin : signature.isBuiltin = true)
    (howner : some signature.name.moduleName = registry.graph.prelude) :
    HasLowering signature.name.name signature.typeParams.length signature.params.length := by
  obtain ⟨owner, item, header, checked, hitem, hheader, hchecked, rfl⟩ := (Graph.mem_signatures_iff h.signed).1 hmem
  have hintrinsic := h.intrinsics howner.symm (Graph.declares_of_header? hitem hheader)
  cases item with
  | builtin loc _ =>
    cases hheader
    obtain ⟨_, _, params, result, hparams, _, rfl⟩ := Graph.checkHeader_eq_ok_iff.1 hchecked
    have hlength := (mapM_eq_ok_iff.1 hparams).length_eq
    simp only [Signature.ofHeader, Header.typeParamsOf, length_map, ← hlength]
    exact hintrinsic
  | _ => cases hbuiltin

variable {setting : Setting} (hsetting : setting.prelude = registry.graph.prelude)
include hsetting

section

variable {graph : Graph} {owner : String} {params : List TypeParam}

/-- A written type has Rust text, as long as opaque types come from the prelude. -/
theorem lowered_type (type : TypeExpr) {resolved : TypedTypeExpr}
    (hresolved : (TypeScope.mk graph registry.types owner (typeNamesOf params)).resolve type = .ok resolved)
    (loc : Option Location) : Lowered registry.graph.OpaquesInPrelude True (setting.type loc resolved.type) := by
  induction type using TypeExpr.induct generalizing resolved with
  | named _ path args ih =>
    cases TypeScope.resolve_named_eq_ok_iff.1 hresolved with
    | simple hsimple =>
      rcases TypeScope.simple?_eq_ok_some_iff.1 hsimple with ⟨_, hprimitive⟩ | ⟨_, _, hlookup⟩
      · obtain ⟨primitive, hname, rfl⟩ := Option.map_eq_some_iff.1 hprimitive
        cases primitive with
        | other name => exact absurd hname Primitive.ofName?_ne_other
        | _ => exact .ok _
      · obtain ⟨param, _, hparam⟩ := mem_map.1 (mem_of_lookup hlookup)
        obtain ⟨_, rfl⟩ := Prod.mk.inj hparam
        exact .ok _
    | struct => exact .ok _
    | @opaqueType owner' name _ _ info _ parts _ _ hget hlength hparts =>
      rw [TypedTypeExpr.type]
      unfold Setting.type
      split
      · next hoption =>
        -- The prelude's `Option` has an argument to write.
        obtain ⟨howner, rfl⟩ := hoption
        have hargs := h.typeParams_pos (hsetting.symm.trans howner.symm) hget
        rw [← hlength, (mapM_eq_ok_iff.1 hparts).length_eq] at hargs
        cases parts with
        | nil => exact absurd hargs (Nat.lt_irrefl 0)
        | cons part parts =>
          obtain ⟨arg, harg, hpart⟩ := (mem_of_mapM_eq_ok hparts).1 mem_cons_self
          exact (ih arg harg hpart).bind_pure _
      · next hother =>
        refine (Lowered.cannotLower _ _ _).congr fun hgiven => iff_of_false id fun _ => hother ?_
        rw [hsetting]
        exact h.eq_option hgiven hget
  | array _ element length ih =>
    obtain ⟨part, hpart, rfl⟩ := TypeScope.resolve_array_eq_ok_iff.1 hresolved
    exact (ih hpart).bind_pure _
  | function _ params' result ihParams ihResult =>
    obtain ⟨parts, part, hparts, hpart, rfl⟩ := TypeScope.resolve_function_eq_ok_iff.1 hresolved
    rw [TypedTypeExpr.type, Setting.type, Setting.types_eq_mapM]
    have hparams : ∀ type ∈ parts.map (·.type), Lowered registry.graph.OpaquesInPrelude True (setting.type loc type) :=
      forall_mem_map.2 (forall_mem_of_mapM ihParams hparts)
    refine ((Lowered.mapM hparams).bind fun texts _ => ?_).congr fun _ =>
      iff_of_true ⟨fun _ _ => trivial, trivial⟩ trivial
    refine .ite (fun _ => .ok _) fun hresult => ?_
    cases result with
    | none =>
      cases hpart
      exact absurd rfl hresult
    | some type =>
      obtain ⟨written, hwritten, rfl⟩ := TypeScope.resolveOption_some_eq_ok_iff.1 hpart
      exact (ihResult type rfl hwritten).bind_pure _
  | unknown node => cases hresolved

/-- The types of written fields or parameters have Rust text. -/
theorem lowered_member {members : List (Member TypeExpr)} {resolved : List (Member TypedTypeExpr)}
    (hresolved : members.mapM (TypeScope.mk graph registry.types owner (typeNamesOf params)).member = .ok resolved)
    (loc : Option Location) :
    ∀ entry ∈ resolved.map fun member => (member.name, member.type.type),
      Lowered registry.graph.OpaquesInPrelude True (setting.type loc entry.2) := by
  intro entry hentry
  obtain ⟨member, hmember, rfl⟩ := mem_map.1 hentry
  obtain ⟨written, _, type, htype, rfl⟩ := TypeScope.exists_of_mem_members hresolved hmember
  exact h.lowered_type hsetting written.type htype loc

end

omit h in
/-- A call of a builtin function needs that the prelude has the function. -/
theorem lowered_builtinCall {given : Prop} {loc : Location} {name : ItemName} {typeArgs : List Ty}
    (htypes : ∀ type ∈ typeArgs, Lowered given True (setting.type (some loc) type)) {args : List TypedExpr}
    {texts : List String} (hlength : texts.length = args.length)
    (hlowering : some name.moduleName = registry.graph.prelude → HasLowering name.name typeArgs.length args.length) :
    Lowered given (some name.moduleName = registry.graph.prelude)
      (setting.builtinCall loc name typeArgs args texts) := by
  unfold Setting.builtinCall
  rw [hsetting]
  split
  · next hother => exact (Lowered.cannotLower _ _ _).congr fun _ => iff_of_false id hother
  next hprelude =>
  have hlowering := hlowering (not_not.1 hprelude)
  refine Lowered.congr (?_ : Lowered given True _) fun _ => iff_of_true trivial (not_not.1 hprelude)
  refine .ite (fun hname => ?some) fun hsome => .ite (fun hname => ?none) fun hnone => ?method
  case some =>
    have hargs := hlowering.args_pos_of_some hname
    rw [← hlength] at hargs
    cases texts with
    | nil => exact absurd hargs (Nat.lt_irrefl 0)
    | cons text texts => exact .ok _
  case none =>
    have htypeArgs := hlowering.typeArgs_pos_of_none hname
    cases typeArgs with
    | nil => exact absurd htypeArgs (Nat.lt_irrefl 0)
    | cons type types => exact (htypes type mem_cons_self).bind_pure _
  case method =>
    obtain ⟨hmethod, hargs, hexpect⟩ := hlowering.method_of_ne hsome hnone
    rw [if_pos (contains_iff_mem.2 hmethod)]
    cases args with
    | nil => exact absurd hargs (Nat.lt_irrefl 0)
    | cons arg args =>
      cases texts with
      | nil => cases hlength
      | cons text texts =>
        refine .ite (fun hname => ?_) fun _ => .ok _
        have hmore := hexpect hname
        rw [← hlength] at hmore
        cases texts with
        | nil => exact absurd hmore (Nat.lt_irrefl 1)
        | cons message texts => exact .ok _

omit h hsetting in
/-- What a name stands for has Rust text if it is no builtin function. -/
theorem lowered_referent {given : Prop} {prelude : Option String} {loc : Location} {path : Path} {referent : Referent} :
    Lowered given ((TypedNode.expr (.binding loc path referent)).HasText prelude) (setting.referent loc referent) := by
  cases referent with
  | binding symbol => exact .ok _
  | function signature =>
    rw [Setting.referent]
    split
    · next hbuiltin =>
      exact (Lowered.cannotLower _ _ _).congr fun _ => iff_of_false id (Bool.not_eq_false _ ▸ hbuiltin)
    · next hother => exact .ok_of_needs (Bool.eq_false_iff.2 hother) _

section

variable {owner : String} {signature : Signature} {scope : Scope} {given : Prop} {prelude : Option String}
  {out : TypedExpr}

/-- A call of a function of the program has Rust text, and a call of a builtin function if the prelude has it. -/
theorem lowered_call {path : Path} {loc : Location} {typeArgs : List TypeExpr} {callee : Context.Callee}
    (hcallee : (registry.bodyContext owner signature).FindsCallee scope path loc typeArgs callee)
    {args : List TypedExpr}
    (hargs : args.map (·.type) = callee.params) {texts : List String} (hlength : texts.length = args.length) :
    Lowered registry.graph.OpaquesInPrelude
      ((TypedNode.expr (.call loc path callee.typeArgs args callee.target callee.result)).HasText
        registry.graph.prelude)
      (setting.call loc callee.target (callee.typeArgs.map (·.type)) args texts) := by
  cases hcallee with
  | binding => exact .ok _
  | @function _ _ _ signature _ resolved _ _ _ hget htypeArgs hresolved =>
    have htypes : ∀ type ∈ resolved.map (·.type),
        Lowered registry.graph.OpaquesInPrelude True (setting.type loc type) :=
      forall_mem_map.2 (forall_mem_of_mapM (fun written _ _ hwritten =>
        h.lowered_type hsetting written hwritten loc) hresolved)
    rw [Setting.call]
    split
    · next hbuiltin =>
      refine (lowered_builtinCall hsetting htypes hlength fun howner => ?_).congr fun _ =>
        ⟨fun hprelude _ => hprelude, fun hprelude => hprelude hbuiltin⟩
      have hlowering := h.hasLowering (h.mem_signatures (Table.get_eq_ok_iff.1 hget)).2 hbuiltin howner
      rw [← htypeArgs, (mapM_eq_ok_iff.1 hresolved).length_eq] at hlowering
      have hparams := congrArg List.length hargs
      simp only [Signature.instantiate, Ty.substList_eq_map, Signature.paramTypes, length_map] at hparams
      rwa [length_map, hparams]
    · next hother =>
      rw [Setting.types_eq_mapM]
      refine ((Lowered.mapM htypes).bind_pure _).congr fun _ => iff_of_true (fun _ _ => trivial) fun hbuiltin => ?_
      exact absurd hbuiltin hother

omit h hsetting in
theorem lowered_inits {fields : List (FieldInit TypedExpr)} (hfields : ∀ field ∈ fields,
      Lowered given (HaveText prelude field.value.nodes) (setting.expr field.value)) :
    Lowered given (HaveText prelude (initsNodes fields)) (setting.inits fields) := by
  refine forall_mem_induct fields hfields (.ok_of_needs (forall_mem_nil _) _) fun _ _ hfirst ih => ?_
  refine (hfirst.bind fun _ _ => ih.bind_pure _).congr fun _ => ?_
  exact haveText_append_iff.symm.trans (haveText_iff_cons trivial)

/-- An expression has Rust text if all in it has. -/
theorem lowered_expr (e : Expr) (hout : (registry.bodyContext owner signature).expr scope e = .ok out) :
    LoweredNodes registry out.nodes (setting.expr out) := by
  induction e using Expr.induct generalizing out with
  | literal loc value =>
    cases Context.expr_eq_ok_iff.1 hout
    refine .ok_of_needs ?_ _
    exact haveText_singleton trivial
  | binding loc path =>
    cases Context.expr_eq_ok_iff.1 hout
    exact lowered_referent.congr fun _ => forall_mem_singleton.symm
  | field loc root fields =>
    cases Context.expr_eq_ok_iff.1 hout
    refine .ok_of_needs ?_ _
    exact haveText_singleton trivial
  | call loc path typeArgs args ih =>
    cases Context.expr_eq_ok_iff.1 hout with
    | @call _ _ _ _ callee outs hcallee houts htypes =>
      have hargs : ∀ arg ∈ outs, LoweredNodes registry arg.nodes (setting.expr arg) := forall_mem_of_mapM ih houts
      rw [Setting.expr, Setting.exprs_eq_mapM]
      have hcall := (Lowered.mapM hargs).bind fun texts htexts =>
        h.lowered_call hsetting hcallee htypes (mapM_eq_ok_iff.1 htexts).length_eq.symm
      refine hcall.congr fun _ => ?_
      rw [and_comm, TypedExpr.nodes, HaveText, forall_mem_cons]
      refine and_congr_right fun _ => forall_mem_exprsNodes.symm.trans ?_
      exact (and_iff_right (forall_mem_typesNodes.2 fun type _ => haveText_nodes type)).symm.trans
        haveText_append_iff.symm
  | init loc path fields ih =>
    cases Context.expr_eq_ok_iff.1 hout with
    | @init _ _ _ _ outs _ _ houts _ =>
      rw [Setting.expr]
      refine (Lowered.bind (lowered_inits fun field hfield => ?_) fun texts _ => ?_).congr fun _ =>
        (and_iff_left trivial).trans ((haveText_iff_cons trivial))
      · obtain ⟨written, hwritten, hchecks⟩ := exists_of_forall₂_of_mem houts.flip hfield
        exact ih written hwritten hchecks.value
      · exact .ite (fun _ => .ok _) fun _ => .ok _
  | unary loc op operand ih =>
    cases Context.expr_eq_ok_iff.1 hout with
    | unary hoperand _ => exact ((ih hoperand).bind_pure _).congr fun _ => haveText_iff_cons trivial
  | binary loc op left right ihLeft ihRight =>
    cases Context.expr_eq_ok_iff.1 hout with
    | binary hleft hright _ =>
      refine ((ihLeft hleft).bind fun _ _ => (ihRight hright).bind_pure _).congr fun _ => ?_
      exact haveText_append_iff.symm.trans (haveText_iff_cons trivial)
  | paren loc inner ih =>
    cases Context.expr_eq_ok_iff.1 hout with
    | paren hinner => exact ((ih hinner).bind_pure _).congr fun _ => haveText_iff_cons trivial
  | operatorless | unknown => cases Context.expr_eq_ok_iff.1 hout

omit h hsetting in
theorem lowered_block {body : Block TypedStmt} (hstmts : ∀ stmt ∈ body.statements,
      Lowered given (HaveText prelude stmt.nodes) (setting.stmt stmt)) :
    Lowered given (HaveText prelude (blockNodes body)) (setting.block body) := by
  obtain ⟨loc, stmts⟩ := body
  have hlist : Lowered given (∀ stmt ∈ stmts, HaveText prelude stmt.nodes) (setting.stmts stmts) := by
    refine forall_mem_induct stmts hstmts (.ok_of_needs (forall_mem_nil _) _) fun _ _ hfirst ih => ?_
    refine (hfirst.bind fun _ _ => ih.bind_pure _).congr fun _ => ?_
    rw [forall_mem_cons]
  rw [Setting.block, HaveText, forall_mem_blockNodes fun _ _ => trivial]
  exact hlist.bind_pure _

omit h hsetting in
theorem lowered_branches {opening : String} {branches : List (Branch TypedExpr TypedStmt)}
    (hconditions : ∀ branch ∈ branches,
      Lowered given (HaveText prelude branch.condition.nodes) (setting.expr branch.condition))
    (hbodies : ∀ branch ∈ branches,
      Lowered given (HaveText prelude (blockNodes branch.body)) (setting.block branch.body)) :
    Lowered given (HaveText prelude (branchesNodes branches)) (setting.branches opening branches) := by
  induction branches generalizing opening with
  | nil => exact .ok_of_needs (forall_mem_nil _) _
  | cons branch branches ih =>
    obtain ⟨hcondition, hconditions⟩ := forall_mem_cons.1 hconditions
    obtain ⟨hbody, hbodies⟩ := forall_mem_cons.1 hbodies
    refine ((hcondition.bind_pure _).bind fun _ _ => hbody.bind fun _ _ =>
      (ih hconditions hbodies).bind_pure _).congr fun _ => ?_
    rw [← and_assoc, ← haveText_append_iff, ← haveText_append_iff, branchesNodes]
    exact haveText_iff_cons trivial

omit h hsetting in
theorem lowered_otherwise {otherwise : Option (Block TypedStmt)}
    (hbody : ∀ body ∈ otherwise, Lowered given (HaveText prelude (blockNodes body)) (setting.block body)) :
    Lowered given (HaveText prelude (elseNodes otherwise)) (setting.otherwise otherwise) := by
  cases otherwise with
  | none => exact .ok_of_needs (forall_mem_nil _) _
  | some body => exact (hbody body rfl).bind_pure _

/-- A statement has Rust text if all in it has. -/
theorem lowered_stmt {stmt : Stmt} {inLoop : Bool} {out : TypedStmt} {scope' : Scope}
    (hchecks : (registry.bodyContext owner signature).ChecksStmt inLoop scope stmt out scope') :
    LoweredNodes registry out.nodes (setting.stmt out) := by
  induction out using TypedStmt.inductBlocks generalizing stmt inLoop scope scope' with
  | step out ih =>
    have hvalues : ∀ value ∈ out.expressions, LoweredNodes registry value.nodes (setting.expr value) := by
      intro value hvalue
      obtain ⟨e, he⟩ := hchecks.exists_expr hvalue
      exact h.lowered_expr hsetting e he
    have hblocks : ∀ body ∈ out.blocks, LoweredNodes registry (blockNodes body) (setting.block body) := by
      intro body hbody
      obtain ⟨_, written, hwritten⟩ := hchecks.exists_block hbody
      refine lowered_block fun inner hinner => ?_
      obtain ⟨_, _, _, hinnerChecks⟩ := Context.exists_checksStmt_of_mem hwritten hinner
      exact ih body hbody inner hinner hinnerChecks
    cases out with
    | block body =>
      rw [Setting.stmt, TypedStmt.nodes]
      exact (hblocks body mem_cons_self).bind_pure _
    | letBinding symbol type value =>
      cases hchecks with
      | letBinding htype =>
        rw [Setting.stmt, TypedStmt.nodes]
        refine ((h.lowered_type hsetting _ htype _).bind fun _ _ =>
          (hvalues value mem_cons_self).bind_pure _).congr fun _ => ?_
        refine Iff.trans ?_ (haveText_iff_cons trivial)
        rw [haveText_append_iff]
        exact and_congr_left fun _ => iff_of_true trivial (haveText_nodes _)
    | assign loc target fields value | expression loc value =>
      rw [Setting.stmt, TypedStmt.nodes]
      exact ((hvalues value mem_cons_self).bind_pure _).congr fun _ => haveText_iff_cons trivial
    | ifChain loc branches otherwise =>
      have hbranches := @lowered_branches setting _ _ "" branches
        (fun branch hbranch => hvalues _ (mem_map_of_mem hbranch))
        fun branch hbranch => hblocks _ (mem_append_left _ (mem_map_of_mem hbranch))
      have hlast := lowered_otherwise fun body hbody =>
        hblocks body (mem_append_right _ (Option.mem_toList.2 hbody))
      rw [Setting.stmt, TypedStmt.nodes]
      exact (hbranches.bind fun _ _ => hlast.bind_pure _).congr fun _ =>
        haveText_append_iff.symm.trans (haveText_iff_cons trivial)
    | whileLoop loc condition body =>
      rw [Setting.stmt, TypedStmt.nodes]
      refine (((hvalues condition mem_cons_self).bind_pure _).bind fun _ _ =>
        (hblocks body mem_cons_self).bind_pure _).congr fun _ => ?_
      exact haveText_append_iff.symm.trans (haveText_iff_cons trivial)
    | returnValue loc value =>
      cases value with
      | none =>
        refine .ok_of_needs ?_ _
        exact haveText_singleton trivial
      | some value =>
        rw [Setting.stmt, TypedStmt.nodes]
        exact ((hvalues value mem_cons_self).bind_pure _).congr fun _ => haveText_iff_cons trivial
    | breakLoop | continueLoop =>
      refine .ok_of_needs ?_ _
      exact haveText_singleton trivial

end

variable {owner : String} {loc : Location} {header : Header TypeExpr} {checked : Header TypedTypeExpr}

/-- The first line of a function has Rust text. -/
theorem lowered_functionHeader {isBuiltin : Bool}
    (hchecked : registry.graph.checkHeader registry.types owner loc header = .ok checked) :
    Lowered registry.graph.OpaquesInPrelude True
      (functionHeader setting (Signature.ofHeader owner loc isBuiltin checked)) := by
  obtain ⟨_, _, params, result, hparams, hresult, rfl⟩ := Graph.checkHeader_eq_ok_iff.1 hchecked
  have htypes := h.lowered_member hsetting hparams (some loc)
  refine (Lowered.bind (.mapM fun param hparam => (htypes param hparam).bind_pure _) fun _ _ => ?_).congr fun _ =>
    iff_of_true ⟨fun _ _ => trivial, trivial⟩ trivial
  refine .ite (fun _ => .ok _) fun hunit => ?_
  obtain ⟨name, typeParams, _, written⟩ := header
  cases written with
  | none =>
    cases hresult
    exact absurd rfl hunit
  | some type =>
    obtain ⟨part, hpart, rfl⟩ := TypeScope.resolveOption_some_eq_ok_iff.1 hresult
    exact (h.lowered_type hsetting type hpart (some loc)).bind_pure _

/-- A function has Rust text if all in its body has. -/
theorem lowered_functionLines {body : Block Stmt} {out : Block TypedStmt}
    (hchecked : registry.graph.checkHeader registry.types owner loc header = .ok checked)
    (hbody : (registry.bodyContext owner (Signature.ofHeader owner loc false checked)).body loc
      (paramLocals checked.params)
      body = .ok out) :
    LoweredNodes registry (blockNodes out)
      (functionLines setting (Signature.ofHeader owner loc false checked) out) := by
  obtain ⟨_, hblock, _⟩ := Context.body_eq_ok_iff.1 hbody
  have hinner : ({ setting with shadowed := shadowedNames (Signature.ofHeader owner loc false checked) out } :
    Setting).prelude = registry.graph.prelude := hsetting
  have hlines := lowered_block fun stmt hstmt => by
    obtain ⟨_, _, _, hchecks⟩ := Context.exists_checksStmt_of_mem hblock hstmt
    exact h.lowered_stmt hinner hchecks
  refine ((h.lowered_functionHeader hinner hchecked).bind fun _ _ => hlines.bind_pure _).congr fun _ => ?_
  exact and_iff_right trivial

/-- The struct under a name has Rust text. -/
theorem lowered_structLines {name : String} {decl : StructDecl}
    (hget : registry.types.structs.get ⟨setting.moduleName, name⟩ = .ok decl) :
    Lowered registry.graph.OpaquesInPrelude True (structLines registry.structs setting loc name) := by
  have hdecl := Table.get_eq_ok_iff.1 hget
  obtain ⟨info, hinfo⟩ := Table.exists_mapM_iff.1 ⟨_, h.structs⟩ _ (Table.mem_of_find? hdecl)
  have hknown := Table.get_eq_ok_iff.2 ((Table.find?_of_mapM h.structs).2 ⟨decl, hdecl, hinfo⟩)
  obtain ⟨_, fields, hfields, rfl⟩ := Graph.structInfo_eq_ok_iff.1 hinfo
  have hresolved : decl.fields.mapM
    (TypeScope.mk registry.graph registry.types decl.name.moduleName (typeNamesOf [])).member =
    .ok fields := hfields
  have htypes := h.lowered_member hsetting hresolved (some loc)
  rw [structLines, hknown, ok_bind]
  exact ((Lowered.mapM fun field hfield => (htypes field hfield).bind_pure _).bind_pure _).congr fun _ =>
    iff_of_true (fun _ _ => trivial) trivial

/-- A checked item has Rust text if all in it has. -/
theorem lowered_itemLines {item : Item} {out : TypedItem} (hchecks : registry.ChecksItem setting.moduleName item out) :
    LoweredNodes registry out.nodes
      (itemLines registry.structs setting out) := by
  cases hchecks with
  | use | other =>
    refine .ok_of_needs ?_ _
    exact haveText_singleton trivial
  | struct hget =>
    refine ((h.lowered_structLines hsetting hget).bind_pure _).congr fun _ => iff_of_true trivial ?_
    exact haveText_cons trivial
      (forall_mem_membersNodes (fun _ _ => trivial) rfl fun member _ => haveText_nodes member.type)
  | eclipsed hget =>
    refine ((h.lowered_structLines hsetting hget).bind_pure _).congr fun _ => iff_of_true trivial ?_
    exact haveText_cons trivial (forall_mem_unresolvedNodes (fun _ _ => trivial) (fun _ => trivial) _)
  | opaqueType =>
    exact (Lowered.cannotLower _ _ _).congr fun _ => iff_of_false id fun htext => htext _ mem_cons_self
  | @function _ _ _ checked out hchecked hbody =>
    refine ((h.lowered_functionLines hsetting hchecked hbody).bind_pure _).congr fun _ => ?_
    refine Iff.trans ?_ (haveText_append_iff.symm.trans (haveText_iff_cons trivial))
    exact (and_iff_right (haveText_headerNodes checked)).symm
  | builtin =>
    refine .ok_of_needs ?_ _
    exact haveText_cons trivial (haveText_headerNodes _)

omit hsetting in
/-- An item of a checked program has Rust text if all in it has. -/
theorem lowered_of_checkModules {modules : List TypedModule} (hmodules : registry.checkModules = .ok modules)
    {module_ : TypedModule} (hmodule : module_ ∈ modules) {item : TypedItem} (hitem : item ∈ module_.items) :
    LoweredNodes registry item.nodes
      (itemLines registry.structs ⟨registry.graph.prelude, module_.name, []⟩ item) := by
  obtain ⟨owner, _, hname, written, _, hchecks⟩ := Registry.exists_checksItem hmodules hmodule hitem
  rw [hname] at hchecks
  exact h.lowered_itemLines rfl hchecks

omit hsetting in
/-- The Rust backend fails only where a construct has no Rust text. -/
theorem failsOnly_crateLines {program : Program} (hregistry : program.registry = registry)
    (hmodules : registry.checkModules = .ok program.modules) (emitEntry : Bool) :
    FailsOnly IsLowering (crateLines program emitEntry) := by
  subst hregistry
  have hcomplete : Complete program.registry.structs := Graph.complete_of_structs h.types h.structs
  refine .bind (.forM fun _ _ => .bind failsOnly_checkName fun _ _ =>
    .forM fun _ _ => failsOnly_checkItemNames) fun _ _ =>
    .bind ((failsOnly_checkContainment hcomplete).mono fun _ => ReportsCycle.isLowering) fun _ _ =>
      .last (.mapM fun module_ hmodule => .last (.mapM fun item hitem => ?_))
  exact (h.lowered_of_checkModules hmodules (mem_of_mem_filter hmodule) hitem).fails

end Lowers

end Rust

end Smpl
