import Smpl.Proofs.Extend.Insert

namespace Smpl

open List

/-- What checking adds to a node: the type of an expression or of a written type, what a name stands
    for, the types that a call gives to the callee's type parameters, and the signature of a function. -/
structure Decoration where
  type : Option Ty := none
  symbol : Option Referent := none
  instantiation : Option (List Ty) := none
  signature : Option Signature := none

def TypedNode.decoration : TypedNode → Decoration
  | .type written => { type := some written.type }
  | .expr (.binding _ _ referent) => { type := some referent.type, symbol := some referent }
  | .expr (.field _ root _ reached) => { type := some reached, symbol := some (.binding root) }
  | .expr (.call _ _ typeArgs _ target result) =>
    { type := some result, symbol := some target, instantiation := some (typeArgs.map (·.type)) }
  | .expr e => { type := some e.type }
  | .stmt (.letBinding symbol _ _) | .stmt (.assign _ symbol _ _) => { symbol := some (.binding symbol) }
  | .item (.function _ _ _ signature) | .item (.builtin _ _ signature) => { signature := some signature }
  | .unresolved _ | .stmt _ | .item _ | .plain _ _ => {}

/-- The type arguments that were written at a node. -/
def TypedNode.typeArgs : TypedNode → List TypeExpr
  | .expr (.call _ _ written _ _ _) => eraseTypes written
  | _ => []

/-- All that a node of its kind asks for was added to it. -/
structure TypedNode.Complete (node : TypedNode) : Prop where
  type : node.visit.kind.isType = true ∨ node.visit.kind.isExpr = true → node.decoration.type.isSome = true
  signature : node.visit.kind.isCallable = true → node.decoration.signature.isSome = true
  binding : node.visit.kind.isLocal = true → ∃ symbol, node.decoration.symbol = some (.binding symbol)
  symbol : node.visit.kind = .binding → node.decoration.symbol.isSome = true
  call : node.visit.kind = .call → ∃ target types, node.decoration.symbol = some target ∧
    node.decoration.instantiation = some types ∧ types.length = node.typeArgs.length ∧
    ∀ signature, target = .function signature → types.length = signature.typeParams.length

/-- The types that checking left at a node: that of the node, that of the binding it stands for, and
    the type arguments of a call. A function that is named there has its types in its own signature. -/
def Decoration.types (decoration : Decoration) : List Ty :=
  decoration.type.toList ++
    (match decoration.symbol with
      | some (.binding symbol) => [symbol.type]
      | some (.function _) | none => []) ++
    decoration.instantiation.getD []

/-- What checking added to a node makes sense in the program: all that it asks for is there, its types are formed, and a
    function that it names is registered. -/
structure TypedNode.Formed (registry : Registry) (params : List TypeParam) (node : TypedNode) : Prop where
  complete : node.Complete
  types : ∀ type ∈ node.decoration.types, type.Formed registry.graph params
  functions : ∀ {signature}, node.decoration.symbol = some (.function signature) →
    ∃ name, registry.functions.get name = .ok signature

namespace TypedNode

variable {registry : Registry} {params : List TypeParam}

theorem formed_plain {kind : NodeKind} (hkind : kind.isPlain = true) (loc : Location) :
    (plain kind loc).Formed registry params := by
  refine ⟨?_, forall_mem_nil _, nofun⟩
  cases kind <;> cases hkind <;> exact ⟨nofun, nofun, nofun, nofun, nofun⟩

theorem formed_type {written : TypedTypeExpr} (h : written.type.Formed registry.graph params) :
    (type written).Formed registry params := by
  refine ⟨?_, forall_mem_singleton.2 h, nofun⟩
  cases written <;> exact ⟨fun _ => rfl, nofun, nofun, nofun, nofun⟩

/-- An expression has all that it asks for if a function that it calls takes the type arguments that are there. -/
theorem complete_expr {e : TypedExpr} (h : ∀ {loc path typeArgs args signature result},
    e = .call loc path typeArgs args (.function signature) result → typeArgs.length = signature.typeParams.length) :
    (expr e).Complete := by
  cases e with
  | literal loc value => cases value <;> exact ⟨fun _ => rfl, nofun, nofun, nofun, nofun⟩
  | init | unary | binary | paren => exact ⟨fun _ => rfl, nofun, nofun, nofun, nofun⟩
  | binding => exact ⟨fun _ => rfl, nofun, nofun, fun _ => rfl, nofun⟩
  | field => exact ⟨fun _ => rfl, nofun, fun _ => ⟨_, rfl⟩, nofun, nofun⟩
  | call loc path typeArgs args target result =>
    refine ⟨fun _ => rfl, nofun, nofun, nofun, fun _ => ⟨target, typeArgs.map (·.type), rfl, rfl, ?_, ?_⟩⟩
    · rw [TypedNode.typeArgs, eraseTypes_eq_map, length_map, length_map]
    · rintro signature rfl
      rw [length_map, h rfl]

/-- A statement asks for no more than formed types in what it declares. -/
theorem formed_stmt {checked : TypedStmt}
    (h : ∀ type ∈ (stmt checked).decoration.types, type.Formed registry.graph params) :
    (stmt checked).Formed registry params := by
  refine ⟨?_, h, fun heq => ?_⟩
  · cases checked with
    | letBinding | assign => exact ⟨nofun, nofun, fun _ => ⟨_, rfl⟩, nofun, nofun⟩
    | _ => exact ⟨nofun, nofun, nofun, nofun, nofun⟩
  · cases checked <;> cases heq

end TypedNode

/-- A type that was read is resolved to formed nodes. -/
theorem TypeScope.Knows.formed_nodes {registry : Registry} {typeNames : List (String × Ty)} {owner file : String}
    (h : (TypeScope.mk registry.graph registry.types owner typeNames).Knows) {params : List TypeParam}
    (hsite : (Site.mk registry.graph owner typeNames).Formed params) {type : TypeExpr} (hread : type.ReadFrom file)
    {resolved : TypedTypeExpr}
    (hresolved : (TypeScope.mk registry.graph registry.types owner typeNames).resolve type = .ok resolved) :
    ∀ node ∈ resolved.nodes, node.Formed registry params := by
  induction hread generalizing resolved with
  | named hloc hpath hread hargs =>
    have hformed := TypedNode.formed_type (h.formed_of_resolve hsite (.named hloc hpath hread) hresolved)
    cases resolve_named_eq_ok_iff.1 hresolved with
    | simple | struct => exact forall_mem_singleton.2 hformed
    | opaqueType _ _ _ _ houts =>
      exact forall_mem_cons.2 ⟨hformed, forall_mem_typesNodes.2 (forall_mem_of_mapM hargs houts)⟩
  | array hloc hread hlength helement =>
    have hformed := TypedNode.formed_type (h.formed_of_resolve hsite (.array hloc hread hlength) hresolved)
    obtain ⟨part, hpart, rfl⟩ := resolve_array_eq_ok_iff.1 hresolved
    exact forall_mem_cons.2 ⟨hformed, helement hpart⟩
  | @function _ _ result hloc hread hread' hparams hresult =>
    have hformed := TypedNode.formed_type (h.formed_of_resolve hsite (.function hloc hread hread') hresolved)
    obtain ⟨parts, part, houts, hlast, rfl⟩ := resolve_function_eq_ok_iff.1 hresolved
    have hnodes := forall_mem_typesNodes.2 (forall_mem_of_mapM hparams houts)
    refine forall_mem_cons.2 ⟨hformed, forall_mem_append.2 ⟨hnodes, ?_⟩⟩
    cases result with
    | none =>
      cases hlast
      exact forall_mem_nil _
    | some result =>
      obtain ⟨_, hpart, rfl⟩ := resolveOption_some_eq_ok_iff.1 hlast
      exact hresult result rfl hpart

namespace Context.Formed

variable {ctx : Context} {params : List TypeParam} (h : ctx.Formed params) {scope : Scope} {file : String}
include h

/-- A value that was found is formed, and so is its type. -/
theorem value {path : Path} {loc : Location} {referent : Referent} (hscope : scope.Formed ctx.graph params)
    (hfinds : ctx.FindsValue scope path loc referent) :
    referent.type.Formed ctx.graph params ∧
      (TypedNode.expr (.binding loc path referent)).Formed ctx.registry params := by
  cases hfinds with
  | binding hlocal =>
    have htype := hscope (local?_eq_ok_some_iff.1 hlocal).2
    exact ⟨htype, TypedNode.complete_expr nofun, forall_mem_cons.2 ⟨htype, forall_mem_singleton.2 htype⟩, nofun⟩
  | @function owner item header signature hlocal hfound hheader hget hgeneric =>
    have hdeclares := h.declares (local?_eq_ok_none_iff.1 hlocal).1 hfound
    obtain ⟨hparams, hresult⟩ := h.signature hdeclares hheader hget
    rw [hgeneric] at hparams hresult
    have htype : (Referent.function signature).type.Formed ctx.graph params := by
      refine .function (fun type htype => ?_) (hresult.mono (nil_subset params))
      obtain ⟨param, hparam, rfl⟩ := mem_map.1 htype
      exact (hparams param hparam).mono (nil_subset params)
    refine ⟨htype, TypedNode.complete_expr nofun, forall_mem_singleton.2 htype, fun heq => ?_⟩
    cases heq
    exact ⟨_, hget⟩

/-- A call of a callee that was found is formed, and so are its type arguments. -/
theorem callee {path : Path} {loc : Location} {typeArgs : List TypeExpr}
    (htypeArgs : ∀ type ∈ typeArgs, type.ReadFrom file)
    {callee : Callee} (hscope : scope.Formed ctx.graph params) (hfinds : ctx.FindsCallee scope path loc typeArgs callee)
    (args : List TypedExpr) :
    callee.result.Formed ctx.graph params ∧ (∀ node ∈ typesNodes callee.typeArgs, node.Formed ctx.registry params) ∧
      (TypedNode.expr (.call loc path callee.typeArgs args callee.target callee.result)).Formed
        ctx.registry params := by
  cases hfinds with
  | binding hlocal htype =>
    have hsymbol := hscope (local?_eq_ok_some_iff.1 hlocal).2
    have hformed := hsymbol
    rw [htype] at hformed
    cases hformed with
    | function _ hresult =>
      exact ⟨hresult, forall_mem_nil _, TypedNode.complete_expr nofun,
        forall_mem_cons.2 ⟨hresult, forall_mem_singleton.2 hsymbol⟩, nofun⟩
  | @function owner item header signature _ resolved hlocal hfound hheader hget hlength hresolved =>
    have hdeclares := h.declares (local?_eq_ok_none_iff.1 hlocal).1 hfound
    have hcount : resolved.length = signature.typeParams.length := by
      rw [← hlength, (mapM_eq_ok_iff.1 hresolved).length_eq]
    have htypes : ∀ type ∈ resolved.map (·.type), type.Formed ctx.graph params :=
      forall_mem_map.2 (forall_mem_of_mapM (fun type htype _ => h.resolve (htypeArgs type htype)) hresolved)
    have hresult : (signature.instantiate (resolved.map (·.type))).2.Formed ctx.graph params := by
      rw [Signature.instantiate_eq]
      refine (h.signature hdeclares hheader hget).2.subst fun param hparam => ?_
      exact formed_imagesOf (by rw [length_map, hcount]) htypes hparam
    refine ⟨hresult, forall_mem_typesNodes.2 (forall_mem_of_mapM (fun type htype _ => ?_) hresolved),
      TypedNode.complete_expr fun heq => ?_, forall_mem_cons.2 ⟨hresult, htypes⟩, fun heq => ?_⟩
    · exact h.knows.typeScope.formed_nodes h.typeNames (htypeArgs type htype)
    · cases heq
      exact hcount
    · cases heq
      exact ⟨_, hget⟩

omit h in
/-- Operators lead from formed types to formed types. -/
theorem unaryType {loc : Location} {op : UnaryOp} {operand type : Ty} (hoperand : operand.Formed ctx.graph params)
    (htype : Context.unaryType op operand loc = .ok type) : type.Formed ctx.graph params := by
  rw [unaryType_eq_ok_iff] at htype
  cases op with
  | negate => exact htype.1 ▸ hoperand
  | not => exact htype.1 ▸ .bool
  | reference => exact htype ▸ .reference hoperand
  | dereference =>
    obtain rfl := htype
    cases hoperand with
    | reference htarget => exact htarget

omit h in
theorem binaryType {op : BinaryOp} {left right : TypedExpr} {type : Ty} (hleft : left.type.Formed ctx.graph params)
    (htype : Context.binaryType op left right = .ok type) : type.Formed ctx.graph params := by
  rw [binaryType_eq_ok_iff] at htype
  split at htype
  · exact htype.2.2 ▸ .bool
  split at htype
  · exact htype.2.2 ▸ .bool
  · rw [htype.2.2]
    split
    · exact .bool
    · exact hleft

/-- A checked expression has a formed type, and all its nodes are formed. -/
theorem expr {e : Expr} (hread : e.ReadFrom file) (hscope : scope.Formed ctx.graph params) {out : TypedExpr}
    (hout : ctx.expr scope e = .ok out) :
    out.type.Formed ctx.graph params ∧ ∀ node ∈ out.nodes, node.Formed ctx.registry params := by
  -- A node that names nothing has no type but its own.
  have hown : ∀ {e : TypedExpr}, e.type.Formed ctx.graph params → (TypedNode.expr e).Complete →
      (TypedNode.expr e).decoration = { type := some e.type } → (TypedNode.expr e).Formed ctx.registry params := by
    intro e htype hcomplete hdecoration
    refine ⟨hcomplete, ?_, ?_⟩ <;> rw [hdecoration]
    · exact forall_mem_singleton.2 htype
    · exact nofun
  induction hread generalizing out with
  | @literal loc value =>
    cases expr_eq_ok_iff.1 hout with
    | literal =>
      have htype : (TypedExpr.literal loc value).type.Formed ctx.graph params :=
        by cases value <;> exact .primitive nofun
      exact ⟨htype, forall_mem_singleton.2 (hown htype (TypedNode.complete_expr nofun) rfl)⟩
  | binding =>
    cases expr_eq_ok_iff.1 hout with
    | binding hfinds =>
      obtain ⟨htype, hnode⟩ := h.value hscope hfinds
      exact ⟨htype, forall_mem_singleton.2 hnode⟩
  | field =>
    cases expr_eq_ok_iff.1 hout with
    | field hlookup hchain =>
      have htype := h.chainType hchain (hscope hlookup)
      exact ⟨htype, forall_mem_singleton.2 ⟨TypedNode.complete_expr nofun,
        forall_mem_cons.2 ⟨htype, forall_mem_singleton.2 (hscope hlookup)⟩, nofun⟩⟩
  | call _ _ htypeArgs _ hargs =>
    cases expr_eq_ok_iff.1 hout with
    | @call _ _ _ _ callee outs hfinds houts htypes =>
      obtain ⟨hresult, htypeNodes, hnode⟩ := h.callee htypeArgs hscope hfinds outs
      refine ⟨hresult, forall_mem_cons.2 ⟨hnode, forall_mem_append.2 ⟨htypeNodes, ?_⟩⟩⟩
      exact forall_mem_exprsNodes.2 (forall_mem_of_mapM (fun arg harg _ hpart => (hargs arg harg hpart).2) houts)
  | init _ hpath _ _ hfields =>
    cases expr_eq_ok_iff.1 hout with
    | @init loc path _ info outs hstruct _ houts =>
      have htype : (Ty.struct info.name).Formed ctx.graph params := by
        obtain ⟨_, owner, _, name, fields, hfound, hget⟩ := struct_eq_ok_iff.1 hstruct
        obtain ⟨info', hget', hname, _⟩ := h.knows.registry.structs (h.declares hpath hfound)
        rw [Except.ok.inj (hget.symm.trans hget'), hname]
        exact .struct (h.declares hpath hfound)
      refine ⟨htype, forall_mem_cons.2 ⟨hown htype (TypedNode.complete_expr nofun) rfl, ?_⟩⟩
      refine (forall_mem_initsNodes TypedNode.formed_plain).2 fun field hfield => ?_
      obtain ⟨written, hwritten, hpart⟩ := exists_of_forall₂_of_mem houts.flip hfield
      exact (hfields written hwritten hpart.value).2
  | unary _ _ hoperand =>
    cases expr_eq_ok_iff.1 hout with
    | unary hpart htype =>
      obtain ⟨hpart, hnodes⟩ := hoperand hpart
      have htype := unaryType hpart htype
      exact ⟨htype, forall_mem_cons.2 ⟨hown htype (TypedNode.complete_expr nofun) rfl, hnodes⟩⟩
  | binary _ _ _ hleft hright =>
    cases expr_eq_ok_iff.1 hout with
    | binary hfirst hsecond htype =>
      obtain ⟨hfirst, hnodes⟩ := hleft hfirst
      have htype := binaryType hfirst htype
      exact ⟨htype, forall_mem_cons.2 ⟨hown htype (TypedNode.complete_expr nofun) rfl,
        forall_mem_append.2 ⟨hnodes, (hright hsecond).2⟩⟩⟩
  | paren _ _ hinner =>
    cases expr_eq_ok_iff.1 hout with
    | paren hpart =>
      obtain ⟨htype, hnodes⟩ := hinner hpart
      exact ⟨htype, forall_mem_cons.2 ⟨hown htype (TypedNode.complete_expr nofun) rfl, hnodes⟩⟩

/-- The nodes of a checked block are formed if those of each statement are, wherever it stands. -/
theorem block {body : Block Stmt} (hread : ∀ stmt ∈ body.statements, stmt.ReadFrom file)
    (hstmts : ∀ stmt ∈ body.statements, ∀ {scope inLoop}, scope.Formed ctx.graph params → ∀ {out scope'},
      ctx.ChecksStmt inLoop scope stmt out scope' → ∀ node ∈ out.nodes, node.Formed ctx.registry params)
    {inLoop : Bool} (hscope : scope.Formed ctx.graph params) {out : Block TypedStmt}
    (hout : ctx.block inLoop scope body = .ok out) : ∀ node ∈ blockNodes out, node.Formed ctx.registry params := by
  refine (forall_mem_blockNodes TypedNode.formed_plain).2 ?_
  have houts := (block_eq_ok_iff.1 hout).1
  have hscope : scope.push.Formed ctx.graph params := hscope.push
  generalize scope.push = scope at houts hscope
  generalize body.statements = stmts at hread hstmts houts
  generalize out.statements = outs at houts
  induction stmts generalizing scope outs with
  | nil =>
    cases houts
    exact forall_mem_nil _
  | cons stmt stmts ih =>
    obtain ⟨hfirst, hothers⟩ := forall_mem_cons.1 hread
    obtain ⟨hstmt, hstmts⟩ := forall_mem_cons.1 hstmts
    obtain ⟨out, scope', others, hchecks, hrest, rfl⟩ := stmts_cons_eq_ok_iff.1 houts
    exact forall_mem_cons.2 ⟨hstmt hscope hchecks,
      ih scope' (h.scope_of_checksStmt hfirst hscope hchecks) hothers hstmts others hrest⟩

/-- The nodes of a checked statement are formed. -/
theorem stmt {stmt : Stmt} (hread : stmt.ReadFrom file) {inLoop : Bool} (hscope : scope.Formed ctx.graph params)
    {out : TypedStmt} {scope' : Scope} (hchecks : ctx.ChecksStmt inLoop scope stmt out scope') :
    ∀ node ∈ out.nodes, node.Formed ctx.registry params := by
  have hown : ∀ {stmt : TypedStmt}, (TypedNode.stmt stmt).decoration = {} →
      (TypedNode.stmt stmt).Formed ctx.registry params := by
    intro stmt hdecoration
    apply TypedNode.formed_stmt
    rw [hdecoration]
    exact forall_mem_nil _
  induction hread generalizing inLoop scope out scope' with
  | block _ hread hbody =>
    cases hchecks with
    | block hblock =>
      rw [TypedStmt.nodes]
      exact h.block hread hbody hscope hblock
  | letBinding _ htype hvalue =>
    cases hchecks with
    | letBinding hresolved hout =>
      rw [TypedStmt.nodes]
      have htypes := forall_mem_singleton.2 (h.resolve htype hresolved)
      refine forall_mem_cons.2 ⟨TypedNode.formed_stmt htypes, forall_mem_append.2 ⟨?_, (h.expr hvalue hscope hout).2⟩⟩
      exact h.knows.typeScope.formed_nodes h.typeNames htype hresolved
  | assign _ hvalue =>
    cases hchecks with
    | assign hlookup _ hout =>
      rw [TypedStmt.nodes]
      exact forall_mem_cons.2 ⟨TypedNode.formed_stmt (forall_mem_singleton.2 (hscope hlookup)),
        (h.expr hvalue hscope hout).2⟩
  | ifChain _ _ hconditions hread _ hread' hbodies hotherwise =>
    cases hchecks with
    | ifChain houts hlast =>
      rw [TypedStmt.nodes]
      refine forall_mem_cons.2
        ⟨hown rfl, forall_mem_append.2 ⟨?_, forall_mem_elseNodes.2 fun body hbody => ?_⟩⟩
      · refine (forall_mem_branchesNodes TypedNode.formed_plain).2
          ⟨fun branch hbranch => ?_, fun branch hbranch => ?_⟩ <;>
          obtain ⟨written, hwritten, hbranch⟩ := exists_of_forall₂_of_mem houts.flip hbranch
        · exact (h.expr (hconditions written hwritten) hscope hbranch.condition).2
        · exact h.block (hread written hwritten) (hbodies written hwritten) hscope hbranch.body
      · cases hlast with
        | none => cases hbody
        | some hblock =>
          cases hbody
          exact h.block (hread' _ rfl) (hotherwise _ rfl) hscope hblock
  | whileLoop _ hcondition _ hread hbody =>
    cases hchecks with
    | whileLoop hout _ hblock =>
      rw [TypedStmt.nodes]
      exact forall_mem_cons.2 ⟨hown rfl,
        forall_mem_append.2 ⟨(h.expr hcondition hscope hout).2, h.block hread hbody hscope hblock⟩⟩
  | returnValue _ hvalue =>
    cases hchecks with
    | returnNothing =>
      rw [TypedStmt.nodes]
      exact forall_mem_singleton.2 (hown rfl)
    | returnValue _ hout =>
      rw [TypedStmt.nodes]
      exact forall_mem_cons.2 ⟨hown rfl, (h.expr (hvalue _ rfl) hscope hout).2⟩
  | breakLoop | continueLoop =>
    cases hchecks
    rw [TypedStmt.nodes]
    exact forall_mem_singleton.2 (hown rfl)
  | expression _ hvalue =>
    cases hchecks with
    | expression hout =>
      rw [TypedStmt.nodes]
      exact forall_mem_cons.2 ⟨hown rfl, (h.expr hvalue hscope hout).2⟩

/-- The nodes of a checked body are formed. -/
theorem body {loc : Location} {locals : List Local} (hlocals : ∀ symbol ∈ locals, symbol.type.Formed ctx.graph params)
    {body : Block Stmt} (hread : body.ReadFrom file) {out : Block TypedStmt}
    (hout : ctx.body loc locals body = .ok out) :
    ∀ node ∈ blockNodes out, node.Formed ctx.registry params := by
  obtain ⟨_, hblock, _⟩ := body_eq_ok_iff.1 hout
  exact h.block hread.statements (fun stmt hstmt => h.stmt (hread.statements stmt hstmt))
    (Scope.formed_of_locals hlocals)
    hblock

end Context.Formed

/-- The type parameters that an item declares. -/
def TypedItem.typeParamsOf (owner : String) : TypedItem → List TypeParam
  | .function _ header _ _ | .builtin _ header _ => header.typeParamsOf owner
  | .use _ _ | .struct _ _ _ | .eclipsed _ _ _ | .opaqueType _ _ _ | .other _ _ => []

namespace Registry.Describes

variable {registry : Registry} (h : registry.Describes) (hread : registry.graph.Read) {owner : String}
include h hread

/-- The nodes of a checked header are formed, with the type parameters of its function. -/
theorem formed_headerNodes {item : Item} (hdeclares : registry.graph.Declares owner item) {header : Header TypeExpr}
    (hheader : item.header? = some header) {loc : Location} {checked : Header TypedTypeExpr}
    (hchecked : registry.graph.checkHeader registry.types owner loc header = .ok checked) :
    ∀ node ∈ headerNodes checked, node.Formed registry (checked.typeParamsOf owner) := by
  obtain ⟨_, _, params, result, hparams, hresult, rfl⟩ := Graph.checkHeader_eq_ok_iff.1 hchecked
  have hknows := h.knows hdeclares (typeNamesOf (header.typeParamsOf owner))
  have hsite := registry.graph.site_formed owner header
  obtain ⟨file, hitem⟩ := hread.item hdeclares
  have hfile := hitem.header hheader
  refine forall_mem_append.2 ⟨?_, forall_mem_resultNodes.2 fun type htype => ?_⟩
  · refine forall_mem_membersNodes TypedNode.formed_plain rfl fun param hparam => ?_
    obtain ⟨written, hwritten, type, htype, rfl⟩ := TypeScope.exists_of_mem_members hparams hparam
    exact hknows.formed_nodes hsite (hfile.params written hwritten).type htype
  · cases hwritten : header.result with
    | none =>
      rw [hwritten] at hresult
      cases hresult
      cases htype
    | some written =>
      rw [hwritten] at hresult
      obtain ⟨_, hpart, rfl⟩ := TypeScope.resolveOption_some_eq_ok_iff.1 hresult
      exact Option.mem_some.1 htype ▸ hknows.formed_nodes hsite (hfile.result written hwritten) hpart

/-- The nodes of a checked item are formed, with the type parameters of that item. -/
theorem formed_nodes {file : String} {item : Item} (hmem : (owner, item) ∈ registry.graph.items)
    (hitem : item.ReadFrom file) {out : TypedItem} (hchecks : registry.ChecksItem owner item out) :
    ∀ node ∈ out.nodes, node.Formed registry (out.typeParamsOf owner) := by
  have hdeclares : item.isUse = false → registry.graph.Declares owner item := fun huse =>
    Graph.declares_iff_mem_items.2 ⟨hmem, huse⟩
  cases hchecks with
  | use | opaqueType =>
    exact forall_mem_singleton.2 ⟨⟨nofun, nofun, nofun, nofun, nofun⟩, forall_mem_nil _, nofun⟩
  | struct _ _ _ hresolved =>
    cases hitem with
    | struct _ hfields =>
      refine forall_mem_cons.2 ⟨⟨⟨nofun, nofun, nofun, nofun, nofun⟩, forall_mem_nil _, nofun⟩, ?_⟩
      refine forall_mem_membersNodes TypedNode.formed_plain rfl fun field hfield => ?_
      obtain ⟨written, hwritten, type, htype, rfl⟩ := TypeScope.exists_of_mem_members hresolved hfield
      exact (h.knows (hdeclares rfl) []).formed_nodes (Site.formed_nil _ _) (hfields written hwritten).type htype
  | eclipsed hget hname => exact absurd (h.types.structs.1 hget).1 hname
  | function hchecked hout =>
    cases hitem with
    | function _ _ hbody =>
      have hlocals := h.formed_paramLocals hread (hdeclares rfl) hchecked rfl
      refine forall_mem_cons.2 ⟨⟨⟨nofun, fun _ => rfl, nofun, nofun, nofun⟩, forall_mem_nil _, nofun⟩, ?_⟩
      refine forall_mem_append.2 ⟨h.formed_headerNodes hread (hdeclares rfl) rfl hchecked, ?_⟩
      exact (h.bodyContext_formed hread (hdeclares rfl)).body hlocals hbody hout
  | builtin hchecked =>
    refine forall_mem_cons.2 ⟨⟨⟨nofun, fun _ => rfl, nofun, nofun, nofun⟩, forall_mem_nil _, nofun⟩, ?_⟩
    exact h.formed_headerNodes hread (hdeclares rfl) rfl hchecked
  | other => cases hitem

end Registry.Describes

namespace Program

variable {trees : List Module} {prelude : Option Module} {program : Program}

/-- What checking leaves of a program of modules that were read. -/
theorem formed_of_parsed
    (hparsed : ∀ tree ∈ prelude.toList ++ trees, ∃ file source, Module.ofSource file source = .ok tree)
    (hprogram : ofModules trees prelude = .ok program) :
    program.registry.Describes ∧ program.registry.graph.Read ∧
      ∀ module_ ∈ program.modules, ∀ item ∈ module_.items, ∀ node ∈ item.nodes,
        node.Formed program.registry (item.typeParamsOf module_.name) := by
  obtain ⟨hgraph, hplain, signatures, hchecked⟩ := checked_of_parsed hparsed hprogram
  have hdescribes := hchecked.records.describes hplain
  have hread : program.registry.graph.Read := by
    have hbuild := Graph.build_eq_ok_iff.2 ⟨(ofModules_eq_ok_iff.1 hprogram).1, hgraph⟩
    refine Graph.read_of_build (fun tree htree => ?_) hbuild
    obtain ⟨file, source, hsource⟩ := hparsed tree htree
    exact Module.readFrom_file hsource
  refine ⟨hdescribes, hread, fun module_ hmodule out hout => ?_⟩
  obtain ⟨owner, howner, hname, item, hitem, hchecks⟩ := Registry.exists_checksItem hchecked.modules hmodule hout
  rw [← hname]
  refine hdescribes.formed_nodes hread ?_ ((hread owner howner).items item hitem) hchecks
  exact mem_flatMap.2 ⟨owner, howner, mem_map_of_mem hitem⟩

/-- Checking adds to the modules that were read, completely, and changes nothing else: without what was
    added they are the modules that were read, a walk through them meets a node for each node that was
    read, and at each node all that it asks for is there. -/
theorem complete_of_ofModules
    (hparsed : ∀ tree ∈ prelude.toList ++ trees, ∃ file source, Module.ofSource file source = .ok tree)
    (hprogram : ofModules trees prelude = .ok program) :
    program.modules.map TypedModule.erase = prelude.toList ++ trees ∧
      ∀ module_ ∈ program.modules,
        module_.nodes.map TypedNode.visit = (module_.erase.walk fun _ => false) ∧
          ∀ node ∈ module_.nodes, node.Complete := by
  obtain ⟨hgraph, _, signatures, hchecked⟩ := checked_of_parsed hparsed hprogram
  obtain ⟨_, _, hformed⟩ := formed_of_parsed hparsed hprogram
  refine ⟨?_, fun module_ hmodule => ⟨module_.visit_nodes, ?_⟩⟩
  · rw [Registry.erase_of_checkModules hchecked.modules, ← Graph.map_tree_ofTrees, ← hgraph, Program.graph]
  · have hroot : (TypedNode.plain .module module_.loc).Formed program.registry [] := TypedNode.formed_plain rfl _
    refine forall_mem_cons.2 ⟨hroot.complete, fun node hnode => ?_⟩
    obtain ⟨item, hitem, hnode⟩ := mem_flatMap.1 hnode
    exact (hformed module_ hmodule item hitem node hnode).complete

/-- A call with type arguments in a branch of a conditional, and a struct of another module. -/
theorem complete_of_ofModules_nested :
    ∃ util app program,
      Module.ofSource "util"
        "mod util; struct P {x: int} opaque Box(type T); builtin fn box(type T)(v: T) -> Box(type T);" =
        .ok util ∧
      Module.ofSource "app" ("mod app; use util; fn main() " ++
        "{let p: P = P {x: 1}; if (p.x < 0) {} elif 1 < p.x {let b: Box(type P) = box(type P)(p);}}") = .ok app ∧
      ofModules [util, app] none = .ok program ∧ program.modules.map TypedModule.erase = [util, app] ∧
      ∀ module_ ∈ program.modules, ∀ node ∈ module_.nodes, node.Complete := by
  simp only [exists_and_left]
  refine exists_ok₃ (p := fun _ _ _ => true) (by decide +kernel) fun util app program hutil happ hprogram _ => ?_
  have hparsed : ∀ tree ∈ (none : Option Module).toList ++ [util, app],
      ∃ file source, Module.ofSource file source = .ok tree :=
    forall_mem_cons.2 ⟨⟨_, _, hutil⟩, forall_mem_singleton.2 ⟨_, _, happ⟩⟩
  obtain ⟨herase, hcomplete⟩ := complete_of_ofModules hparsed hprogram
  exact ⟨herase, fun module_ hmodule => (hcomplete module_ hmodule).2⟩

end Program

end Smpl
