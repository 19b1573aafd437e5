import Smpl.Proofs.Decorated.Scoping
import Smpl.Proofs.Print.Spellable

namespace Smpl

open List

namespace Context

variable {ctx : Context} {scope : Scope}

/-- A node is what checking found in a scope for something that was written. -/
def ChecksNode (ctx : Context) (scope : Scope) : TypedNode → Prop
  | .type resolved => ∃ written, ctx.typeScope.resolve written = .ok resolved
  | .expr out => ∃ e, ctx.expr scope e = .ok out
  | .stmt out => ∃ inLoop stmt scope', ctx.ChecksStmt inLoop scope stmt out scope'
  | .plain _ _ => True
  | .unresolved _ | .item _ => False

/-- The nodes of a resolved type were found by resolving types. -/
theorem checksNode_of_resolve (type : TypeExpr) {resolved : TypedTypeExpr}
    (h : ctx.typeScope.resolve type = .ok resolved) : ∀ node ∈ resolved.nodes, ctx.ChecksNode scope node := by
  induction type using TypeExpr.induct generalizing resolved with
  | named loc path args ih =>
    cases TypeScope.resolve_named_eq_ok_iff.1 h with
    | simple | struct => exact forall_mem_cons.2 ⟨⟨_, h⟩, forall_mem_nil _⟩
    | opaqueType _ _ _ _ hargs =>
      exact forall_mem_cons.2 ⟨⟨_, h⟩, forall_mem_typesNodes.2 (forall_mem_of_mapM ih hargs)⟩
  | array loc element length ih =>
    obtain ⟨part, hpart, rfl⟩ := TypeScope.resolve_array_eq_ok_iff.1 h
    exact forall_mem_cons.2 ⟨⟨_, h⟩, ih hpart⟩
  | function loc params result ihParams ihResult =>
    obtain ⟨parts, part, hparams, hresult, rfl⟩ := TypeScope.resolve_function_eq_ok_iff.1 h
    have hnodes := forall_mem_typesNodes.2 (forall_mem_of_mapM ihParams hparams)
    refine forall_mem_cons.2 ⟨⟨_, h⟩, forall_mem_append.2 ⟨hnodes, ?_⟩⟩
    cases result with
    | none =>
      cases hresult
      exact forall_mem_nil _
    | some result =>
      obtain ⟨_, hpart, rfl⟩ := TypeScope.resolveOption_some_eq_ok_iff.1 hresult
      exact ihResult result rfl hpart
  | unknown node => cases h

theorem FindsCallee.checksNode {path : Path} {loc : Location} {typeArgs : List TypeExpr} {callee : Callee}
    (h : FindsCallee ctx scope path loc typeArgs callee) :
    ∀ node ∈ typesNodes callee.typeArgs, ctx.ChecksNode scope node := by
  cases h with
  | binding => exact forall_mem_nil _
  | function _ _ _ _ _ hresolved =>
    exact forall_mem_typesNodes.2 (forall_mem_of_mapM (fun type _ => checksNode_of_resolve type) hresolved)

/-- The nodes of a checked expression were found by checking in its scope. -/
theorem checksNode_of_expr (e : Expr) {out : TypedExpr} (h : ctx.expr scope e = .ok out) :
    ∀ node ∈ out.nodes, ctx.ChecksNode scope node := by
  refine out.forall_mem_nodes_of_parts (fun _ _ => trivial) fun part hpart => ?_
  obtain ⟨written, hwritten⟩ := exists_expr_of_partOf hpart h
  refine ⟨⟨written, hwritten⟩, ?_⟩
  cases expr_eq_ok_iff.1 hwritten with
  | call hcallee => exact forall_mem_typesNodes.1 hcallee.checksNode
  | _ => exact forall_mem_nil _

/-- The nodes that a statement has outside its blocks were found by checking in its scope. -/
theorem ChecksStmt.checksNode {inLoop : Bool} {stmt : Stmt} {out : TypedStmt} {scope' : Scope}
    (h : ctx.ChecksStmt inLoop scope stmt out scope') : ∀ node ∈ out.ownNodes, ctx.ChecksNode scope node := by
  refine forall_mem_cons.2 ⟨⟨_, _, _, h⟩, forall_mem_append.2 ⟨?_, ?_⟩⟩
  · cases h with
    | letBinding hresolved => exact checksNode_of_resolve _ hresolved
    | _ => exact forall_mem_nil _
  · refine forall_mem_exprsNodes.2 fun value hvalue => ?_
    obtain ⟨written, hwritten⟩ := h.exists_expr hvalue
    exact checksNode_of_expr written hwritten

/-- A local declaration that a path means has the name that was spelled. -/
theorem isName_of_local? {path : Path} {symbol : Local} (hlocal : local? scope path = .ok (some symbol))
    (hspelled : path.isSpellable = true) : isName symbol.name = true := by
  obtain ⟨hpath, hlookup⟩ := local?_eq_ok_some_iff.1 hlocal
  simp only [Path.isSpellable, Bool.and_eq_true, all_eq_true] at hspelled
  rw [lookup_name hlookup]
  exact hspelled.2 _ (hpath ▸ mem_singleton_self _)

/-- The type of a declaration was written. -/
def Annotates (ctx : Context) (symbol : Local) : Prop :=
  ∃ written resolved, ctx.typeScope.resolve written = .ok resolved ∧ symbol.type = resolved.type

end Context

namespace Block

variable {body : Block TypedStmt} {around : List (List TypedStmt)}

theorem Nested.stands_of_mem {block : Block TypedStmt} (h : body.Nested around block) :
    ∀ before ∈ around, ∀ stmt ∈ before, ∃ around, body.Stands around stmt := by
  induction h with
  | body => exact forall_mem_nil _
  | inside hnested hsplit _ ih =>
    refine forall_mem_cons.2 ⟨fun stmt hstmt => ?_, ih⟩
    obtain ⟨before, hstands⟩ := hnested.exists_stands (hsplit ▸ mem_append_left _ hstmt)
    exact ⟨_, hstands⟩

/-- The statements that come before another one stand in the same body. -/
theorem Stands.stands_of_mem {stmt : TypedStmt} (h : body.Stands around stmt) :
    ∀ before ∈ around, ∀ earlier ∈ before, ∃ around, body.Stands around earlier := by
  cases h with
  | mk hnested hsplit =>
    refine forall_mem_cons.2 ⟨fun earlier hearlier => ?_, hnested.stands_of_mem⟩
    obtain ⟨before, hstands⟩ := hnested.exists_stands (hsplit ▸ mem_append_left _ hearlier)
    exact ⟨_, hstands⟩

/-- What can be seen from a place in a body is a parameter or what a statement of the body binds. -/
theorem Stands.mem_framesAt {params : List Local} {stmt : TypedStmt} (h : body.Stands around stmt) :
    ∀ frame ∈ framesAt params around, ∀ symbol ∈ frame,
      symbol ∈ params ∨ ∃ around type value, body.Stands around (.letBinding symbol type value) := by
  intro frame hframe symbol hsymbol
  rcases mem_append.1 hframe with hframe | hframe
  · obtain ⟨before, hbefore, rfl⟩ := mem_map.1 hframe
    obtain ⟨earlier, hearlier, hdeclares⟩ := mem_filterMap.1 (mem_reverse.1 hsymbol)
    obtain ⟨_, hplace⟩ := h.stands_of_mem before hbefore earlier hearlier
    cases earlier with
    | letBinding =>
      cases hdeclares
      exact .inr ⟨_, _, _, hplace⟩
    | _ => cases hdeclares
  · rw [mem_singleton.1 hframe, mem_reverse] at hsymbol
    exact .inl hsymbol

end Block

namespace Context

variable {ctx : Context} {loc : Location} {params : List Local} {written : Block Stmt} {body : Block TypedStmt}
  (hbody : ctx.body loc params written = .ok body) {around : List (List TypedStmt)} {stmt : TypedStmt}
  (hstands : body.Stands around stmt)
include hbody hstands

/-- A statement of a checked body was checked in the scope of its place. -/
theorem exists_checksStmt_of_stands :
    ∃ inLoop scope stmt' scope', scope.frames = framesAt params around ∧
      ctx.ChecksStmt inLoop scope stmt' stmt scope' := by
  obtain ⟨_, hblock, _⟩ := body_eq_ok_iff.1 hbody
  cases hstands with
  | mk hnested hsplit =>
    obtain ⟨_, _, _, hframes, hblock⟩ := exists_block_of_nested hblock hnested
    obtain ⟨scope, stmt', scope', hframes', hstmt⟩ := exists_checksStmt_of_block hframes hblock hsplit
    exact ⟨_, scope, stmt', scope', hframes', hstmt⟩

/-- The declarations in the scope of a place have types that were written, if the parameters have. -/
theorem annotates_of_mem_framesAt (hparams : ∀ symbol ∈ params, ctx.Annotates symbol) :
    ∀ frame ∈ framesAt params around, ∀ symbol ∈ frame, ctx.Annotates symbol := by
  intro frame hframe symbol hsymbol
  obtain hparam | ⟨_, _, _, hplace⟩ := hstands.mem_framesAt frame hframe symbol hsymbol
  · exact hparams symbol hparam
  · obtain ⟨_, _, _, _, _, hchecks⟩ := exists_checksStmt_of_stands hbody hplace
    cases hchecks with
    | letBinding hresolved => exact ⟨_, _, hresolved, rfl⟩

/-- All nodes of a statement were checked in the scope of its place, where declarations have written types. -/
theorem exists_scope_of_stands (hparams : ∀ symbol ∈ params, ctx.Annotates symbol) :
    ∃ scope, scope.frames = framesAt params around ∧ (∀ node ∈ stmt.ownNodes, ctx.ChecksNode scope node) ∧
      ∀ {name symbol}, scope.lookup name = some symbol → ctx.Annotates symbol := by
  obtain ⟨_, scope, _, _, hframes, hchecks⟩ := exists_checksStmt_of_stands hbody hstands
  refine ⟨scope, hframes, hchecks.checksNode, fun hlookup => ?_⟩
  obtain ⟨frame, hframe, hfind⟩ := exists_of_findSome?_eq_some hlookup
  exact annotates_of_mem_framesAt hbody hstands hparams frame (hframes ▸ hframe) _ (mem_of_find?_eq_some hfind)

end Context

/-- The parameters of a checked header have types that were written, where the body of its function is checked. -/
theorem Registry.annotates_paramLocals {registry : Registry} {owner : String} {loc : Location}
    {header : Header TypeExpr}
    {checked : Header TypedTypeExpr} (h : registry.graph.checkHeader registry.types owner loc header = .ok checked) :
    ∀ symbol ∈ paramLocals checked.params,
      (registry.bodyContext owner (Signature.ofHeader owner loc false checked)).Annotates symbol := by
  intro symbol hsymbol
  obtain ⟨param, hparam, rfl⟩ := mem_map.1 hsymbol
  obtain ⟨_, _, params, result, hparams, _, rfl⟩ := Graph.checkHeader_eq_ok_iff.1 h
  obtain ⟨_, _, type, htype, rfl⟩ := TypeScope.exists_of_mem_members hparams hparam
  exact ⟨_, type, htype, rfl⟩

/-- In the body of a function, type names stand for its type parameters. -/
theorem Registry.exists_param_of_mem_typeNames {registry : Registry} {owner : String} {signature : Signature} :
    ∀ entry ∈ (registry.bodyContext owner signature).typeNames, ∃ param, entry.2 = .param param := by
  intro entry hentry
  obtain ⟨param, _, rfl⟩ := mem_map.1 hentry
  exact ⟨param, rfl⟩

theorem eraseStmts_eq_map (stmts : List TypedStmt) : eraseStmts stmts = stmts.map TypedStmt.erase :=
  eq_map_of_cons rfl fun _ _ => rfl

/-- What was written for an expression is what some text denotes. -/
def TypedNode.Spellable : TypedNode → Prop
  | .expr out => out.erase.Spellable
  | _ => True

/-- The parts of an expression that can be spelled can be spelled. -/
theorem TypedExpr.PartOf.spellable {part e : TypedExpr} (hpart : part.PartOf e) (h : e.erase.Spellable) :
    part.erase.Spellable := by
  induction hpart with
  | whole => exact h
  | argument harg _ ih =>
    rw [TypedExpr.erase, eraseExprs_eq_map] at h
    cases h with
    | call _ _ hargs => exact ih (hargs _ (mem_map_of_mem harg))
  | field hfield _ ih =>
    rw [TypedExpr.erase, eraseInits_eq_map] at h
    cases h with
    | init _ _ hfields => exact ih (hfields _ (mem_map_of_mem hfield))
  | operand _ ih =>
    cases h with
    | unary hoperand => exact ih hoperand
  | left _ ih =>
    cases h with
    | binary hleft _ => exact ih hleft
  | right _ ih =>
    cases h with
    | binary _ hright => exact ih hright
  | inner _ ih =>
    cases h with
    | paren hinner => exact ih hinner

/-- The nodes of an expression that can be spelled can be spelled. -/
theorem TypedExpr.spellable_nodes (e : TypedExpr) (h : e.erase.Spellable) : ∀ node ∈ e.nodes, node.Spellable :=
  e.forall_mem_nodes_of_parts (fun _ _ => trivial) fun _ hpart =>
    ⟨hpart.spellable h, fun type _ => type.forall_mem_nodes fun _ => trivial⟩

/-- The expressions and the blocks in a statement that can be spelled can be spelled. -/
theorem TypedStmt.spellable_parts {stmt : TypedStmt} (h : stmt.erase.Spellable) :
    (∀ e ∈ stmt.expressions, e.erase.Spellable) ∧
      ∀ block ∈ stmt.blocks, ∀ inner ∈ (eraseBlock block).statements, inner.Spellable := by
  cases stmt with
  | block body =>
    rw [TypedStmt.erase] at h
    cases h with
    | block hbody => exact ⟨forall_mem_nil _, forall_mem_singleton.2 hbody⟩
  | letBinding =>
    cases h with
    | letBinding _ _ hvalue => exact ⟨forall_mem_singleton.2 hvalue, forall_mem_nil _⟩
  | assign =>
    cases h with
    | assign _ _ hvalue => exact ⟨forall_mem_singleton.2 hvalue, forall_mem_nil _⟩
  | ifChain loc branches otherwise =>
    rw [TypedStmt.erase, eraseBranches_eq_map] at h
    cases h with
    | ifChain _ hconditions hbodies hlast =>
      refine ⟨forall_mem_map.2 fun branch hbranch => hconditions _ (mem_map_of_mem hbranch), ?_⟩
      refine forall_mem_append.2 ⟨forall_mem_map.2 fun branch hbranch => ?_, fun body hbody => ?_⟩
      · exact hbodies _ (mem_map_of_mem hbranch)
      · obtain rfl := Option.mem_toList.1 hbody
        exact hlast _ rfl
  | whileLoop =>
    cases h with
    | whileLoop hcondition hbody => exact ⟨forall_mem_singleton.2 hcondition, forall_mem_singleton.2 hbody⟩
  | returnValue loc value =>
    cases h with
    | returnValue hvalue =>
      refine ⟨fun e he => hvalue _ ?_, forall_mem_nil _⟩
      exact Option.mem_map_of_mem _ (Option.mem_toList.1 he)
  | breakLoop | continueLoop => exact ⟨forall_mem_nil _, forall_mem_nil _⟩
  | expression =>
    cases h with
    | expression hvalue => exact ⟨forall_mem_singleton.2 hvalue, forall_mem_nil _⟩

theorem spellable_blockNodes {body : Block TypedStmt}
    (hstmts : ∀ stmt ∈ body.statements, stmt.erase.Spellable → ∀ node ∈ stmt.nodes, node.Spellable)
    (h : ∀ stmt ∈ (eraseBlock body).statements, stmt.Spellable) : ∀ node ∈ blockNodes body, node.Spellable := by
  refine (forall_mem_blockNodes fun _ _ => trivial).2 fun stmt hstmt => hstmts stmt hstmt (h _ ?_)
  obtain ⟨loc, stmts⟩ := body
  rw [eraseBlock, eraseStmts_eq_map]
  exact mem_map_of_mem hstmt

/-- The expressions in a body that can be spelled can be spelled. -/
theorem Block.spellable_nodes {body : Block TypedStmt} (h : ∀ stmt ∈ (eraseBlock body).statements, stmt.Spellable) :
    ∀ node ∈ blockNodes body, node.Spellable := by
  refine spellable_blockNodes (fun stmt hstmt => ?_) h
  clear hstmt
  induction stmt using TypedStmt.inductBlocks with
  | step stmt ih =>
    intro hspellable
    obtain ⟨hvalues, hblocks⟩ := stmt.spellable_parts hspellable
    refine (TypedStmt.forall_mem_nodes_iff fun _ _ => trivial).2 ⟨fun _ => trivial, ?_, ?_, ?_⟩
    · exact stmt.forall_mem_writtenNodes fun _ => trivial
    · exact fun e he => e.spellable_nodes (hvalues e he)
    · exact fun block hblock => spellable_blockNodes (ih block hblock) (hblocks block hblock)

namespace Program

variable {trees : List Module} {prelude : Option Module} {program : Program}
  (hprogram : ofModules trees prelude = .ok program) {module_ : TypedModule} (hmodule : module_ ∈ program.modules)
  {loc : Location} {header : Header TypedTypeExpr} {body : Block TypedStmt} {signature : Signature}
  (hitem : TypedItem.function loc header body signature ∈ module_.items)
include hprogram hmodule hitem

/-- The body of a function of an accepted program was checked with its parameters, whose types were written. -/
theorem exists_body_of_function :
    (∃ written, (program.registry.bodyContext module_.name signature).body loc (paramLocals header.params) written =
      .ok body) ∧
    ∀ symbol ∈ paramLocals header.params, (program.registry.bodyContext module_.name signature).Annotates symbol := by
  obtain ⟨_, _, hmodules⟩ := spec_of_ofModules hprogram
  obtain ⟨owner, _, hname, _, _, hchecks⟩ := Registry.exists_checksItem hmodules hmodule hitem
  rw [← hname]
  cases hchecks with
  | function hheader hbody => exact ⟨⟨_, hbody⟩, Registry.annotates_paramLocals hheader⟩

/-- Every expression in the body of a function of an accepted program was checked in a scope where declarations have
    written types. -/
theorem exists_expr_of_mem_body {e : TypedExpr} (he : .expr e ∈ blockNodes body) :
    ∃ scope written, (program.registry.bodyContext module_.name signature).expr scope written = .ok e ∧
      ∀ {name symbol}, scope.lookup name = some symbol →
        (program.registry.bodyContext module_.name signature).Annotates symbol := by
  obtain ⟨⟨_, hbody⟩, hparams⟩ := exists_body_of_function hprogram hmodule hitem
  obtain ⟨_, _, hstands, hown⟩ := body.exists_own_of_mem_nodes _ he (by rintro _ _ ⟨⟩)
  obtain ⟨scope, _, hchecks, hlocals⟩ := Context.exists_scope_of_stands hbody hstands hparams
  obtain ⟨written, hwritten⟩ := hchecks _ hown
  exact ⟨scope, written, hwritten, hlocals⟩

end Program

def TypedNode.expr? : TypedNode → Option TypedExpr
  | .expr e => some e
  | _ => none

/-- The expressions in the body of a function. -/
def TypedItem.exprs : TypedItem → List TypedExpr
  | .function _ _ body _ => (blockNodes body).filterMap TypedNode.expr?
  | .use _ _ | .struct _ _ _ | .eclipsed _ _ _ | .opaqueType _ _ _ | .builtin _ _ _ | .other _ _ => []

/-- The expressions of an item are those in the body of a function. -/
theorem TypedItem.mem_exprs_iff {item : TypedItem} {e : TypedExpr} :
    e ∈ item.exprs ↔ ∃ loc header body signature, item = .function loc header body signature ∧
      .expr e ∈ blockNodes body := by
  cases item with
  | function loc header body signature =>
    rw [TypedItem.exprs, mem_filterMap]
    constructor
    · rintro ⟨node, hnode, he⟩
      cases node with
      | expr => cases he; exact ⟨loc, header, body, signature, rfl, hnode⟩
      | _ => cases he
    · rintro ⟨_, _, _, _, heq, he⟩
      cases heq
      exact ⟨_, he, rfl⟩
  | _ => simp [TypedItem.exprs]

namespace Program

variable {trees : List Module} {prelude : Option Module} {program : Program}
  (hprogram : ofModules trees prelude = .ok program) {module_ : TypedModule} (hmodule : module_ ∈ program.modules)
  {item : TypedItem} (hitem : item ∈ module_.items)
include hprogram hmodule hitem

/-- The items of an accepted program of modules that can be spelled can be spelled. -/
theorem spellable_of_mem_items (hspellable : ∀ tree ∈ prelude.toList ++ trees, tree.Spellable) :
    item.erase.Spellable := by
  obtain ⟨hgraph, _, hmodules⟩ := spec_of_ofModules hprogram
  have hread : program.modules.map TypedModule.erase = prelude.toList ++ trees := by
    rw [Registry.erase_of_checkModules hmodules, ← Graph.map_tree_ofTrees, ← hgraph, Program.graph]
  have htree := hspellable module_.erase (hread ▸ mem_map_of_mem hmodule)
  exact htree.items _ (mem_map_of_mem hitem)

variable {e : TypedExpr} (he : e ∈ item.exprs)
include he

/-- Every expression in a function of an accepted program was checked in a scope where declarations have written types,
    and type names stand for type parameters. -/
theorem exists_expr_of_mem_exprs :
    ∃ ctx : Context, ctx.registry = program.registry ∧ ctx.moduleName = module_.name ∧
      (∀ entry ∈ ctx.typeNames, ∃ param, entry.2 = .param param) ∧
      ∃ scope written, ctx.expr scope written = .ok e ∧
        ∀ {name symbol}, scope.lookup name = some symbol → ctx.Annotates symbol := by
  obtain ⟨loc, header, body, signature, rfl, hnode⟩ := TypedItem.mem_exprs_iff.1 he
  obtain ⟨scope, written, hwritten, hlocals⟩ := exists_expr_of_mem_body hprogram hmodule hitem hnode
  exact ⟨_, rfl, rfl, Registry.exists_param_of_mem_typeNames, scope, written, hwritten, hlocals⟩

/-- The expressions in the functions of an accepted program of modules that can be spelled can be spelled. -/
theorem spellable_of_mem_exprs (hspellable : ∀ tree ∈ prelude.toList ++ trees, tree.Spellable) : e.erase.Spellable := by
  obtain ⟨loc, header, body, signature, rfl, hnode⟩ := TypedItem.mem_exprs_iff.1 he
  cases spellable_of_mem_items hprogram hmodule hitem hspellable with
  | function _ hstmts => exact Block.spellable_nodes hstmts _ hnode

end Program

end Smpl
