import Smpl.Proofs.Decorated.Nodes
import Smpl.Proofs.Extend.Program
import Smpl.Rust.Stmt

namespace Smpl

open List

/-- What a statement declares in its own block. -/
def TypedStmt.declares? : TypedStmt → Option Local
  | .letBinding symbol _ _ => some symbol
  | _ => none

/-- What a node declares in the block in which it stands. -/
def TypedNode.declares? : TypedNode → Option Local
  | .stmt checked => checked.declares?
  | _ => none

/-- What statements declare in the block in which they stand. -/
def declarations (stmts : List TypedStmt) : List Local :=
  stmts.filterMap TypedStmt.declares?

theorem TypedExpr.filterMap_nodes (e : TypedExpr) : e.nodes.filterMap TypedNode.declares? = [] :=
  filterMap_eq_nil_iff.2 (e.forall_mem_nodes (fun _ _ => rfl) (fun _ => rfl) fun _ => rfl)

mutual

/-- The bindings of a statement are those of the `let` statements among its nodes. -/
theorem TypedStmt.filterMap_nodes : (stmt : TypedStmt) → stmt.nodes.filterMap TypedNode.declares? = stmt.bindings
  | .block body => by rw [TypedStmt.nodes, filterMap_blockNodes body, TypedStmt.bindings]
  | .letBinding symbol type value => by
    have htype : type.nodes.filterMap TypedNode.declares? = [] :=
      filterMap_eq_nil_iff.2 (type.forall_mem_nodes fun _ => rfl)
    have hsymbol : (TypedNode.stmt (.letBinding symbol type value)).declares? = some symbol := rfl
    rw [TypedStmt.nodes, filterMap_cons_some hsymbol, filterMap_append, htype, value.filterMap_nodes,
      TypedStmt.bindings, nil_append]
  | .assign _ _ _ value | .expression _ value => by
    rw [TypedStmt.nodes, filterMap_cons_none rfl, value.filterMap_nodes, TypedStmt.bindings]
  | .ifChain _ branches otherwise => by
    rw [TypedStmt.nodes, filterMap_cons_none rfl, filterMap_append, filterMap_branchesNodes branches,
      filterMap_elseNodes otherwise, TypedStmt.bindings]
  | .whileLoop _ condition body => by
    rw [TypedStmt.nodes, filterMap_cons_none rfl, filterMap_append, condition.filterMap_nodes,
      filterMap_blockNodes body, TypedStmt.bindings, nil_append]
  | .returnValue _ none => by
    rw [TypedStmt.nodes, TypedStmt.bindings]
    rfl
  | .returnValue _ (some value) => by
    rw [TypedStmt.nodes, filterMap_cons_none rfl, value.filterMap_nodes, TypedStmt.bindings]
  | .breakLoop _ | .continueLoop _ => by
    rw [TypedStmt.nodes, TypedStmt.bindings]
    rfl

theorem filterMap_blockNodes : (body : Block TypedStmt) →
    (blockNodes body).filterMap TypedNode.declares? = blockBindings body
  | ⟨_, stmts⟩ => by rw [blockNodes, filterMap_cons_none rfl, filterMap_stmtsNodes stmts, blockBindings]

theorem filterMap_stmtsNodes : (stmts : List TypedStmt) →
    (stmtsNodes stmts).filterMap TypedNode.declares? = allBindings stmts
  | [] => by rw [stmtsNodes, allBindings, filterMap_nil]
  | stmt :: stmts => by
    rw [stmtsNodes, filterMap_append, stmt.filterMap_nodes, filterMap_stmtsNodes stmts, allBindings]

theorem filterMap_branchesNodes : (branches : List (Branch TypedExpr TypedStmt)) →
    (branchesNodes branches).filterMap TypedNode.declares? = branchBindings branches
  | [] => by rw [branchesNodes, branchBindings, filterMap_nil]
  | ⟨_, condition, body⟩ :: branches => by
    rw [branchesNodes, cons_append, filterMap_cons_none rfl, filterMap_append, filterMap_append,
      condition.filterMap_nodes, filterMap_blockNodes body, filterMap_branchesNodes branches, branchBindings,
      nil_append]

theorem filterMap_elseNodes : (otherwise : Option (Block TypedStmt)) →
    (elseNodes otherwise).filterMap TypedNode.declares? = otherwiseBindings otherwise
  | none => by rw [elseNodes, otherwiseBindings, filterMap_nil]
  | some body => by rw [elseNodes, filterMap_blockNodes body, otherwiseBindings]

end

/-- The nodes of a statement that are not in a block inside it, but for its written type. -/
inductive TypedStmt.Owns (stmt : TypedStmt) : TypedNode → Prop
  | stmt : Owns stmt (.stmt stmt)
  | expr {value part : TypedExpr} : value ∈ stmt.expressions → part.PartOf value → Owns stmt (.expr part)

/-- The name that a node looks up among the local declarations, as it was written, with what it was found to be. -/
def TypedNode.reference? : TypedNode → Option (Path × Referent)
  | .expr (.binding _ path referent) => some (path, referent)
  | .expr (.field _ root _ _) => some (.bare root.name, .binding root)
  | .expr (.call _ callee _ _ target _) => some (callee, target)
  | .stmt (.assign _ target _ _) => some (.bare target.name, .binding target)
  | _ => none

/-- The blocks of a body: itself, and those inside a statement of a block of it. With each block go, for each block
    around it from the inside out, the statements before the one in which it stands. -/
inductive Block.Nested (body : Block TypedStmt) : List (List TypedStmt) → Block TypedStmt → Prop
  | body : Nested body [] body
  | inside {around : List (List TypedStmt)} {outer inner : Block TypedStmt} {before after : List TypedStmt}
      {stmt : TypedStmt} :
    Nested body around outer → outer.statements = before ++ stmt :: after → inner ∈ stmt.blocks →
    Nested body (before :: around) inner

/-- The statements of a body, with the statements before them in each block around. -/
inductive Block.Stands (body : Block TypedStmt) : List (List TypedStmt) → TypedStmt → Prop
  | mk {around : List (List TypedStmt)} {block : Block TypedStmt} {before after : List TypedStmt} {stmt : TypedStmt} :
    body.Nested around block → block.statements = before ++ stmt :: after → Stands body (before :: around) stmt

/-- A declaration is the one that its name means at a place: the innermost block that has one before the place has
    it, or no block has one and it is a parameter. -/
inductive InScope (params : List Local) : List (List TypedStmt) → Local → Prop
  | param {symbol : Local} : symbol ∈ params → InScope params [] symbol
  | here {before : List TypedStmt} {around : List (List TypedStmt)} {symbol : Local} :
    symbol ∈ declarations before → InScope params (before :: around) symbol
  | outside {before : List TypedStmt} {around : List (List TypedStmt)} {symbol : Local} :
    symbol.name ∉ (declarations before).map (·.name) → InScope params around symbol →
    InScope params (before :: around) symbol

/-- What a name at a place may stand for: the local declaration in scope, and an item only if the name is qualified
    or there is no such declaration. -/
inductive Resolves (params : List Local) (around : List (List TypedStmt)) : Path → Referent → Prop
  | binding {symbol : Local} :
    InScope params around symbol → Resolves params around (.bare symbol.name) (.binding symbol)
  | function {path : Path} {signature : Signature} :
    (path.isQualified = false → ∀ symbol, InScope params around symbol → symbol.name ≠ path.name) →
    Resolves params around path (.function signature)

/-- The names in a body stand for what lexical scoping says, and no block declares a name twice. -/
structure LexicallyScoped (params : List Local) (body : Block TypedStmt) : Prop where
  distinctParams : (params.map (·.name)).Nodup
  distinctLets : ∀ {around block}, body.Nested around block → ((declarations block.statements).map (·.name)).Nodup
  covered : ∀ node ∈ blockNodes body, node.reference? ≠ none → ∃ around stmt, body.Stands around stmt ∧ stmt.Owns node
  resolves : ∀ {around stmt node path referent}, body.Stands around stmt → stmt.Owns node →
    node.reference? = some (path, referent) → Resolves params around path referent

/-- A node that refers to something, somewhere in an expression, is a part of that expression. -/
theorem TypedExpr.exists_partOf_of_mem_nodes (e : TypedExpr) :
    ∀ node ∈ e.nodes, node.reference? ≠ none → ∃ part : TypedExpr, node = .expr part ∧ part.PartOf e := by
  refine e.forall_mem_nodes_of_parts (fun _ _ href => absurd rfl href) fun part hpart =>
    ⟨fun _ => ⟨part, rfl, hpart⟩, ?_⟩
  exact fun type _ => type.forall_mem_nodes fun _ href => absurd rfl href

theorem TypedStmt.owns_of_mem_ownNodes (stmt : TypedStmt) :
    ∀ node ∈ stmt.ownNodes, node.reference? ≠ none → stmt.Owns node := by
  refine forall_mem_cons.2 ⟨fun _ => .stmt, forall_mem_append.2 ⟨?_, ?_⟩⟩
  · exact stmt.forall_mem_writtenNodes fun _ href => absurd rfl href
  · refine forall_mem_exprsNodes.2 fun value hvalue node hnode href => ?_
    obtain ⟨part, rfl, hpart⟩ := value.exists_partOf_of_mem_nodes node hnode href
    exact .expr hvalue hpart

namespace Block

variable {body : Block TypedStmt} {around : List (List TypedStmt)} {block : Block TypedStmt} {stmt : TypedStmt}

theorem Nested.exists_stands (h : body.Nested around block) (hstmt : stmt ∈ block.statements) :
    ∃ before, body.Stands (before :: around) stmt := by
  obtain ⟨before, after, hsplit⟩ := append_of_mem hstmt
  exact ⟨before, .mk h hsplit⟩

theorem Stands.nested (h : body.Stands around stmt) (hblock : block ∈ stmt.blocks) : body.Nested around block := by
  cases h with
  | mk hnested hsplit => exact .inside hnested hsplit hblock

section

variable {P : TypedNode → Prop} (hplain : ∀ {kind}, kind.isPlain = true → ∀ loc, P (.plain kind loc))
  (hown : ∀ {around stmt}, body.Stands around stmt → ∀ node ∈ stmt.ownNodes, P node)
include hplain hown

/-- The nodes of a statement belong to it or to a statement inside it, or are plain. -/
theorem Stands.forall_mem_nodes_of_own (h : body.Stands around stmt) : ∀ node ∈ stmt.nodes, P node := by
  induction stmt using TypedStmt.inductBlocks generalizing around with
  | step stmt ih =>
    obtain ⟨hself, hparts⟩ := forall_mem_cons.1 (hown h)
    obtain ⟨hwritten, hvalues⟩ := forall_mem_append.1 hparts
    refine (TypedStmt.forall_mem_nodes_iff hplain).2
      ⟨fun _ => hself, hwritten, forall_mem_exprsNodes.1 hvalues, fun block hblock => ?_⟩
    refine (forall_mem_blockNodes hplain).2 fun inner hinner => ?_
    obtain ⟨before, hinside⟩ := (h.nested hblock).exists_stands hinner
    exact ih block hblock inner hinner hinside

/-- The nodes of a body belong to its statements, or are plain. -/
theorem forall_mem_nodes_of_own : ∀ node ∈ blockNodes body, P node := by
  refine (forall_mem_blockNodes hplain).2 fun stmt hstmt => ?_
  obtain ⟨before, hstands⟩ := Nested.body.exists_stands hstmt
  exact hstands.forall_mem_nodes_of_own hplain hown

end

/-- Every node of a body that is not plain belongs to a statement of the body, at a place. -/
theorem exists_own_of_mem_nodes (body : Block TypedStmt) :
    ∀ node ∈ blockNodes body, (∀ kind loc, node ≠ .plain kind loc) →
      ∃ around stmt, body.Stands around stmt ∧ node ∈ stmt.ownNodes :=
  forall_mem_nodes_of_own (fun _ _ hne => absurd rfl (hne _ _)) fun hstands _ hnode _ => ⟨_, _, hstands, hnode⟩

/-- Every name in a body is owned by a statement of the body, at a place. -/
theorem exists_owner_of_mem_nodes (body : Block TypedStmt) :
    ∀ node ∈ blockNodes body, node.reference? ≠ none → ∃ around stmt, body.Stands around stmt ∧ stmt.Owns node := by
  intro node hnode href
  have hplain : ∀ kind loc, node ≠ .plain kind loc := by
    rintro kind loc rfl
    exact href rfl
  obtain ⟨around, stmt, hstands, hown⟩ := body.exists_own_of_mem_nodes node hnode hplain
  exact ⟨around, stmt, hstands, stmt.owns_of_mem_ownNodes node hown href⟩

end Block

/-- The open blocks at a place, as the scope of that place holds them. -/
def framesAt (params : List Local) (around : List (List TypedStmt)) : List Frame :=
  around.map (fun before => (declarations before).reverse) ++ [params.reverse]

namespace Scope

variable {scope : Scope} {params : List Local} {around : List (List TypedStmt)} {name : String}

theorem findIn_reverse_eq_some {frame : Frame} {symbol : Local} (h : findIn name frame.reverse = some symbol) :
    symbol ∈ frame ∧ symbol.name = name :=
  ⟨mem_reverse.1 (mem_of_find?_eq_some h), by simpa using find?_some h⟩

theorem findIn_reverse_eq_none {frame : Frame} (h : findIn name frame.reverse = none) : name ∉ frame.map (·.name) := by
  rw [findIn_eq_none_iff, map_reverse, mem_reverse] at h
  exact h

/-- A scope finds the declaration that its name means at a place. -/
theorem inScope_of_lookup {symbol : Local} (hframes : scope.frames = framesAt params around)
    (hlookup : scope.lookup name = some symbol) : InScope params around symbol ∧ symbol.name = name := by
  rw [lookup, hframes, framesAt] at hlookup
  clear hframes
  induction around with
  | nil =>
    rw [map_nil, nil_append, findSome?_singleton] at hlookup
    exact (findIn_reverse_eq_some hlookup).imp_left .param
  | cons before around ih =>
    rw [map_cons, cons_append, findSome?_cons] at hlookup
    split at hlookup
    · next hfound =>
      obtain rfl := Option.some.inj hlookup
      exact (findIn_reverse_eq_some hfound).imp_left .here
    · next hnone =>
      obtain ⟨hscope, rfl⟩ := ih hlookup
      exact ⟨.outside (findIn_reverse_eq_none hnone) hscope, rfl⟩

/-- A scope misses a name only if the name means no declaration at a place. -/
theorem not_inScope_of_lookup (hframes : scope.frames = framesAt params around) (hlookup : scope.lookup name = none) :
    ∀ symbol, InScope params around symbol → symbol.name ≠ name := by
  rw [lookup, hframes, findSome?_eq_none_iff] at hlookup
  clear hframes
  have hmissing : ∀ {frame : List Local}, frame.reverse ∈ framesAt params around → ∀ symbol ∈ frame,
      symbol.name ≠ name := by
    rintro frame hframe symbol hsymbol rfl
    exact findIn_reverse_eq_none (hlookup _ hframe) (mem_map_of_mem hsymbol)
  intro symbol hscope
  induction hscope with
  | param hsymbol => exact hmissing (mem_singleton_self _) _ hsymbol
  | here hsymbol => exact hmissing (mem_cons_self ..) _ hsymbol
  | outside _ _ ih =>
    refine ih (fun frame hframe => hlookup frame (mem_cons_of_mem _ hframe)) fun hframe => ?_
    exact hmissing (mem_cons_of_mem _ hframe)

/-- Names that were looked up in the scope of a place resolve there. -/
theorem resolves_of_local? {path : Path} (hframes : scope.frames = framesAt params around) :
    (∀ {symbol}, Context.local? scope path = .ok (some symbol) → Resolves params around path (.binding symbol)) ∧
      ∀ {signature}, Context.local? scope path = .ok none → Resolves params around path (.function signature) := by
  constructor
  · intro symbol hlocal
    obtain ⟨hpath, hlookup⟩ := Context.local?_eq_ok_some_iff.1 hlocal
    obtain ⟨hscope, hname⟩ := inScope_of_lookup hframes hlookup
    rw [hpath, ← hname]
    exact .binding hscope
  · intro signature hlocal
    refine .function fun hbare => ?_
    refine not_inScope_of_lookup hframes ((Context.local?_eq_ok_none_iff.1 hlocal).2 ?_)
    simpa [Path.isQualified] using hbare

end Scope

namespace Context

variable {ctx : Context} {inLoop : Bool} {scope scope' : Scope} {stmt : Stmt} {out : TypedStmt} {stmts : List Stmt}
  {before after : List TypedStmt} {params : List Local} {around : List (List TypedStmt)} {written : Block Stmt}
  {block body : Block TypedStmt}

/-- A statement adds its own declaration to the innermost block. -/
theorem ChecksStmt.scope_eq (h : ctx.ChecksStmt inLoop scope stmt out scope') :
    scope' = ⟨(declarations [out]).reverse ++ scope.current, scope.outer⟩ := by
  cases h with
  | _ => rfl

/-- A statement among checked ones was checked in the scope that those before it leave. -/
theorem exists_checksStmt (h : ctx.stmts inLoop scope stmts = .ok (before ++ out :: after)) :
    ∃ stmt scope', ctx.ChecksStmt inLoop ⟨(declarations before).reverse ++ scope.current,
      scope.outer⟩ stmt out scope' := by
  induction before generalizing stmts scope with
  | nil =>
    cases stmts with
    | nil => cases h
    | cons stmt rest =>
      obtain ⟨_, scope', _, hstmt, _, heq⟩ := stmts_cons_eq_ok_iff.1 h
      cases heq
      exact ⟨stmt, scope', hstmt⟩
  | cons first before ih =>
    cases stmts with
    | nil => cases h
    | cons stmt rest =>
      obtain ⟨_, scope', _, hstmt, hrest, heq⟩ := stmts_cons_eq_ok_iff.1 h
      cases heq
      obtain ⟨inner, scope'', hinner⟩ := ih hrest
      rw [hstmt.scope_eq, ← append_assoc, ← reverse_append, declarations, declarations, ← filterMap_append] at hinner
      exact ⟨inner, scope'', hinner⟩

/-- Checked statements declare names that are new in their block, each once. -/
theorem freshNames_declarations {outs : List TypedStmt} (h : ctx.stmts inLoop scope stmts = .ok outs) :
    FreshNames (scope.current.map (·.name)) ((declarations outs).map (·.name)) := by
  induction stmts generalizing scope outs with
  | nil =>
    cases h
    exact ⟨nodup_nil, forall_mem_nil _⟩
  | cons stmt rest ih =>
    obtain ⟨_, _, _, hstmt, hrest, rfl⟩ := stmts_cons_eq_ok_iff.1 h
    have hothers := ih hrest
    cases hstmt with
    | letBinding _ _ _ hname => exact freshNames_cons_iff.2 ⟨hname, hothers⟩
    | _ => exact hothers

/-- A statement of a checked block was checked in the scope of its place. -/
theorem exists_checksStmt_of_block (hframes : scope.frames = framesAt params around)
    (hblock : ctx.block inLoop scope written = .ok block) (hsplit : block.statements = before ++ out :: after) :
    ∃ scope stmt scope', scope.frames = framesAt params (before :: around) ∧
      ctx.ChecksStmt inLoop scope stmt out scope' := by
  have hstmts := (block_eq_ok_iff.1 hblock).1
  rw [hsplit] at hstmts
  obtain ⟨stmt, scope', hstmt⟩ := exists_checksStmt hstmts
  refine ⟨_, stmt, scope', ?_, hstmt⟩
  rw [Scope.frames, Scope.push, hframes, append_nil]
  rfl

/-- A block inside a checked body was checked in the scope of its place. -/
theorem exists_block_of_nested (hbody : ctx.block inLoop ⟨params.reverse, []⟩ written = .ok body)
    (hnested : body.Nested around block) :
    ∃ inLoop scope written, scope.frames = framesAt params around ∧ ctx.block inLoop scope written = .ok block := by
  induction hnested with
  | body => exact ⟨_, _, _, rfl, hbody⟩
  | inside _ hsplit hinner ih =>
    obtain ⟨_, _, _, hframes, houter⟩ := ih
    obtain ⟨_, _, _, hframes', hstmt⟩ := exists_checksStmt_of_block hframes houter hsplit
    obtain ⟨_, _, hblock⟩ := hstmt.exists_block hinner
    exact ⟨_, _, _, hframes', hblock⟩

/-- What checking found for the names of a statement is what they mean at its place. -/
theorem ChecksStmt.resolves (hframes : scope.frames = framesAt params around)
    (h : ctx.ChecksStmt inLoop scope stmt out scope') {node : TypedNode} (hnode : out.Owns node) {path : Path}
    {referent : Referent} (href : node.reference? = some (path, referent)) : Resolves params around path referent := by
  have hsymbol : ∀ {name symbol}, scope.lookup name = some symbol →
      Resolves params around (.bare symbol.name) (.binding symbol) :=
    fun hlookup => .binding (Scope.inScope_of_lookup hframes hlookup).1
  cases hnode with
  | stmt =>
    cases h with
    | assign hlookup =>
      cases href
      exact hsymbol hlookup
    | _ => cases href
  | expr hvalue hpart =>
    obtain ⟨whole, hwhole⟩ := h.exists_expr hvalue
    obtain ⟨e, he⟩ := exists_expr_of_partOf hpart hwhole
    cases expr_eq_ok_iff.1 he with
    | binding hfinds =>
      cases href
      cases hfinds with
      | binding hlocal => exact (Scope.resolves_of_local? hframes).1 hlocal
      | function hlocal => exact (Scope.resolves_of_local? hframes).2 hlocal
    | field hlookup =>
      cases href
      exact hsymbol hlookup
    | call hfinds =>
      cases href
      cases hfinds with
      | binding hlocal => exact (Scope.resolves_of_local? hframes).1 hlocal
      | function hlocal => exact (Scope.resolves_of_local? hframes).2 hlocal
    | literal | init | unary | binary | paren => cases href

/-- A checked body is lexically scoped. -/
theorem lexicallyScoped_of_body {loc : Location} (h : ctx.body loc params written = .ok body) :
    LexicallyScoped params body := by
  obtain ⟨hparams, hbody, _⟩ := body_eq_ok_iff.1 h
  refine ⟨hparams, fun hnested => ?_, body.exists_owner_of_mem_nodes, fun hstands hnode href => ?_⟩
  · obtain ⟨_, _, _, _, hblock⟩ := exists_block_of_nested hbody hnested
    exact freshNames_nil_iff.1 (freshNames_declarations (block_eq_ok_iff.1 hblock).1)
  · cases hstands with
    | mk hnested hsplit =>
      obtain ⟨_, _, _, hframes, hblock⟩ := exists_block_of_nested hbody hnested
      obtain ⟨_, _, _, hframes', hstmt⟩ := exists_checksStmt_of_block hframes hblock hsplit
      exact hstmt.resolves hframes' hnode href

end Context

namespace Program

variable {trees : List Module} {prelude : Option Module} {program : Program}

/-- Every function of an accepted program is lexically scoped, and checking changes nothing that was written. -/
theorem lexicallyScoped_of_ofModules (hprogram : ofModules trees prelude = .ok program) :
    program.modules.map TypedModule.erase = prelude.toList ++ trees ∧
      ∀ module_ ∈ program.modules, ∀ loc header body signature,
        TypedItem.function loc header body signature ∈ module_.items →
          LexicallyScoped (paramLocals header.params) body := by
  obtain ⟨hgraph, _, hmodules⟩ := spec_of_ofModules hprogram
  constructor
  · rw [Registry.erase_of_checkModules hmodules, ← Graph.map_tree_ofTrees, ← hgraph, Program.graph]
  · intro module_ hmodule loc header body signature hitem
    obtain ⟨_, _, _, _, _, hchecks⟩ := Registry.exists_checksItem hmodules hmodule hitem
    cases hchecks with
    | function _ hbody => exact Context.lexicallyScoped_of_body hbody

/-- A binding over a parameter of the same name that it reads, one more inside, and a parameter over a function. -/
theorem lexicallyScoped_of_shadowing :
    ∃ tree program,
      Module.ofSource "m"
        "mod m; fn g() {} fn f(x: int, g: fn()) {let x: int = x; if x < 1 {let x: int = x + 1; g();} x = 2;}" =
        .ok tree ∧
      ofModules [tree] none = .ok program ∧
      ∀ module_ ∈ program.modules, ∀ loc header body signature,
        TypedItem.function loc header body signature ∈ module_.items →
          LexicallyScoped (paramLocals header.params) body := by
  simp only [exists_and_left]
  refine exists_ok₂ (p := fun _ _ => true) (by decide +kernel) fun tree program htree hprogram _ => ?_
  exact (lexicallyScoped_of_ofModules hprogram).2

end Program

end Smpl
