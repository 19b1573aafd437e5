import Smpl.Proofs.Syntax.Induction
import Smpl.Syntax.Node
import Smpl.Typed.Erase

namespace Smpl

open List

namespace NodeKind

/-- Written types, in each of their forms. -/
def isType (kind : NodeKind) : Bool :=
  [namedType, arrayType, functionType, unknownType].contains kind

/-- Expressions, in each of their forms. -/
def isExpr (kind : NodeKind) : Bool :=
  [integer, float, bool, string, binding, field, call, init, unary, binary, paren, unknownExpr].contains kind

/-- Functions, with or without a body. -/
def isCallable (kind : NodeKind) : Bool :=
  [function, builtin].contains kind

/-- What declares a binding or starts from one. -/
def isLocal (kind : NodeKind) : Bool :=
  [letBinding, assign, field].contains kind

/-- The parts of other nodes that have a place of their own and say nothing more. -/
def isPlain (kind : NodeKind) : Bool :=
  [module, structField, parameter, fieldInit, branch, block].contains kind

end NodeKind

/-- A node of a checked tree. Checking adds nothing to a `plain` one, and a type is `unresolved` if
    nobody asked what it denotes. -/
inductive TypedNode
  | type (written : TypedTypeExpr)
  | unresolved (visit : Visit)
  | expr (e : TypedExpr)
  | stmt (stmt : TypedStmt)
  | item (item : TypedItem)
  | plain (kind : NodeKind) (loc : Location)

/-- The visit of the node on a walk through the tree as it was read. -/
def TypedNode.visit : TypedNode → Visit
  | .type written => ⟨written.erase.kind, written.erase.loc, false⟩
  | .unresolved written => written
  | .expr checked => ⟨checked.erase.kind, checked.loc, false⟩
  | .stmt checked => ⟨checked.erase.kind, checked.loc, false⟩
  | .item checked => ⟨checked.erase.kind, checked.loc, false⟩
  | .plain kind loc => ⟨kind, loc, false⟩

mutual

/-- The nodes of a resolved type, each before those below it and those in reading order. -/
def TypedTypeExpr.nodes : TypedTypeExpr → List TypedNode
  | .named loc path args type => .type (.named loc path args type) :: typesNodes args
  | .array loc element length type => .type (.array loc element length type) :: element.nodes
  | .function loc params result type =>
    .type (.function loc params result type) :: (typesNodes params ++ resultNodes result)

def typesNodes : List TypedTypeExpr → List TypedNode
  | [] => []
  | type :: types => type.nodes ++ typesNodes types

def resultNodes : Option TypedTypeExpr → List TypedNode
  | none => []
  | some type => type.nodes

end

mutual

/-- The nodes of a checked expression. -/
def TypedExpr.nodes : TypedExpr → List TypedNode
  | .literal loc value => [.expr (.literal loc value)]
  | .binding loc path referent => [.expr (.binding loc path referent)]
  | .field loc root fields type => [.expr (.field loc root fields type)]
  | .call loc callee typeArgs args target type =>
    .expr (.call loc callee typeArgs args target type) :: (typesNodes typeArgs ++ exprsNodes args)
  | .init loc path fields struct => .expr (.init loc path fields struct) :: initsNodes fields
  | .unary loc op operand type => .expr (.unary loc op operand type) :: operand.nodes
  | .binary loc op left right type => .expr (.binary loc op left right type) :: (left.nodes ++ right.nodes)
  | .paren loc inner => .expr (.paren loc inner) :: inner.nodes

def exprsNodes : List TypedExpr → List TypedNode
  | [] => []
  | e :: exprs => e.nodes ++ exprsNodes exprs

def initsNodes : List (FieldInit TypedExpr) → List TypedNode
  | [] => []
  | ⟨loc, _, value⟩ :: inits => .plain .fieldInit loc :: value.nodes ++ initsNodes inits

end

mutual

/-- The nodes of a checked statement. -/
def TypedStmt.nodes : TypedStmt → List TypedNode
  | .block body => blockNodes body
  | .letBinding symbol type value => .stmt (.letBinding symbol type value) :: (type.nodes ++ value.nodes)
  | .assign loc target fields value => .stmt (.assign loc target fields value) :: value.nodes
  | .ifChain loc branches otherwise =>
    .stmt (.ifChain loc branches otherwise) :: (branchesNodes branches ++ elseNodes otherwise)
  | .whileLoop loc condition body => .stmt (.whileLoop loc condition body) :: (condition.nodes ++ blockNodes body)
  | .returnValue loc none => [.stmt (.returnValue loc none)]
  | .returnValue loc (some value) => .stmt (.returnValue loc (some value)) :: value.nodes
  | .breakLoop loc => [.stmt (.breakLoop loc)]
  | .continueLoop loc => [.stmt (.continueLoop loc)]
  | .expression loc value => .stmt (.expression loc value) :: value.nodes

def blockNodes : Block TypedStmt → List TypedNode
  | ⟨loc, statements⟩ => .plain .block loc :: stmtsNodes statements

def stmtsNodes : List TypedStmt → List TypedNode
  | [] => []
  | stmt :: stmts => stmt.nodes ++ stmtsNodes stmts

def branchesNodes : List (Branch TypedExpr TypedStmt) → List TypedNode
  | [] => []
  | ⟨loc, condition, body⟩ :: branches =>
    .plain .branch loc :: (condition.nodes ++ blockNodes body) ++ branchesNodes branches

def elseNodes : Option (Block TypedStmt) → List TypedNode
  | none => []
  | some body => blockNodes body

end

/-- The nodes of struct fields or parameters, which are nodes of the given kind. -/
def membersNodes (kind : NodeKind) (members : List (Member TypedTypeExpr)) : List TypedNode :=
  members.flatMap fun member => .plain kind member.loc :: member.type.nodes

def headerNodes (header : Header TypedTypeExpr) : List TypedNode :=
  membersNodes .parameter header.params ++ resultNodes header.result

/-- The nodes of fields whose types were not asked for. -/
def unresolvedNodes (fields : List (Member TypeExpr)) : List TypedNode :=
  fields.flatMap fun field => .plain .structField field.loc ::
    (field.type.walk fun _ => false).map .unresolved

/-- The nodes of a checked item. -/
def TypedItem.nodes (item : TypedItem) : List TypedNode :=
  .item item ::
    match item with
    | .struct _ _ fields => membersNodes .structField fields
    | .eclipsed _ _ fields => unresolvedNodes fields
    | .function _ header body _ => headerNodes header ++ blockNodes body
    | .builtin _ header _ => headerNodes header
    | .use _ _ | .opaqueType _ _ _ | .other _ _ => []

/-- The nodes of a checked module. -/
def TypedModule.nodes (module_ : TypedModule) : List TypedNode :=
  .plain .module module_.loc :: module_.items.flatMap TypedItem.nodes

section

variable (types : List TypedTypeExpr) (result : Option TypedTypeExpr) (exprs : List TypedExpr)
  (inits : List (FieldInit TypedExpr)) (body : Block TypedStmt) (branches : List (Branch TypedExpr TypedStmt))
  (otherwise : Option (Block TypedStmt))

theorem typesNodes_eq_flatMap : typesNodes types = types.flatMap TypedTypeExpr.nodes :=
  eq_flatMap_of_cons rfl fun _ _ => rfl

theorem exprsNodes_eq_flatMap : exprsNodes exprs = exprs.flatMap TypedExpr.nodes :=
  eq_flatMap_of_cons rfl fun _ _ => rfl

theorem initsNodes_eq_flatMap :
    initsNodes inits = inits.flatMap fun init => .plain .fieldInit init.loc :: init.value.nodes :=
  eq_flatMap_of_cons rfl fun _ _ => rfl

theorem blockNodes_eq : blockNodes body = .plain .block body.loc :: body.statements.flatMap TypedStmt.nodes := by
  have hstmts (stmts : List TypedStmt) : stmtsNodes stmts = stmts.flatMap TypedStmt.nodes :=
    eq_flatMap_of_cons (by rw [stmtsNodes]) fun _ _ => by rw [stmtsNodes]
  cases body
  rw [blockNodes, hstmts]

theorem branchesNodes_eq_flatMap :
    branchesNodes branches = branches.flatMap fun branch =>
      .plain .branch branch.loc :: (branch.condition.nodes ++ blockNodes branch.body) :=
  eq_flatMap_of_cons (by rw [branchesNodes]) fun _ _ => by rw [branchesNodes]

end

mutual

/-- The nodes of a resolved type are those of the type as it was written. -/
theorem TypedTypeExpr.visit_nodes :
    (type : TypedTypeExpr) → type.nodes.map TypedNode.visit = type.erase.walk fun _ => false
  | .named loc path args type => by
    rw [TypedTypeExpr.nodes, map_cons, visit_typesNodes args]
    rfl
  | .array loc element length type => by
    rw [TypedTypeExpr.nodes, map_cons, element.visit_nodes]
    rfl
  | .function loc params result type => by
    rw [TypedTypeExpr.nodes, map_cons, map_append, visit_typesNodes params, visit_resultNodes result]
    rfl

theorem visit_typesNodes : (types : List TypedTypeExpr) →
    (typesNodes types).map TypedNode.visit = walkTypes (fun _ => false) (eraseTypes types)
  | [] => rfl
  | type :: types => by rw [typesNodes, map_append, type.visit_nodes, visit_typesNodes types, eraseTypes, walkTypes]

theorem visit_resultNodes : (result : Option TypedTypeExpr) →
    (resultNodes result).map TypedNode.visit = walkResult (fun _ => false) (eraseResult result)
  | none => rfl
  | some type => by rw [resultNodes, type.visit_nodes, eraseResult, walkResult]

end

mutual

/-- The nodes of a checked expression are those of the expression as it was written. -/
theorem TypedExpr.visit_nodes : (e : TypedExpr) → e.nodes.map TypedNode.visit = e.erase.walk fun _ => false
  | .literal _ _ | .binding _ _ _ | .field _ _ _ _ => rfl
  | .call loc callee typeArgs args target type => by
    rw [TypedExpr.nodes, map_cons, map_append, visit_typesNodes typeArgs, visit_exprsNodes args]
    rfl
  | .init loc path fields struct => by
    rw [TypedExpr.nodes, map_cons, visit_initsNodes fields]
    rfl
  | .unary loc op operand type => by
    rw [TypedExpr.nodes, map_cons, operand.visit_nodes]
    rfl
  | .binary loc op left right type => by
    rw [TypedExpr.nodes, map_cons, map_append, left.visit_nodes, right.visit_nodes]
    rfl
  | .paren loc inner => by
    rw [TypedExpr.nodes, map_cons, inner.visit_nodes]
    rfl

theorem visit_exprsNodes : (exprs : List TypedExpr) →
    (exprsNodes exprs).map TypedNode.visit = walkExprs (fun _ => false) (eraseExprs exprs)
  | [] => rfl
  | e :: exprs => by rw [exprsNodes, map_append, e.visit_nodes, visit_exprsNodes exprs, eraseExprs, walkExprs]

theorem visit_initsNodes : (inits : List (FieldInit TypedExpr)) →
    (initsNodes inits).map TypedNode.visit = walkInits (fun _ => false) (eraseInits inits)
  | [] => rfl
  | ⟨loc, name, value⟩ :: inits => by
    rw [initsNodes, cons_append, map_cons, map_append, value.visit_nodes, visit_initsNodes inits]
    rfl

end

mutual

/-- The nodes of a checked statement are those of the statement as it was written. -/
theorem TypedStmt.visit_nodes : (stmt : TypedStmt) → stmt.nodes.map TypedNode.visit = stmt.erase.walk fun _ => false
  | .block body => by rw [TypedStmt.nodes, visit_blockNodes body, TypedStmt.erase, Stmt.walk]
  | .letBinding symbol type value => by
    rw [TypedStmt.nodes, map_cons, map_append, type.visit_nodes, value.visit_nodes, TypedStmt.erase, Stmt.walk]
    rfl
  | .assign loc target fields value => by
    rw [TypedStmt.nodes, map_cons, value.visit_nodes, TypedStmt.erase, Stmt.walk]
    rfl
  | .ifChain loc branches otherwise => by
    rw [TypedStmt.nodes, map_cons, map_append, visit_branchesNodes branches, visit_elseNodes otherwise,
      TypedStmt.erase, Stmt.walk]
    rfl
  | .whileLoop loc condition body => by
    rw [TypedStmt.nodes, map_cons, map_append, condition.visit_nodes, visit_blockNodes body,
      TypedStmt.erase, Stmt.walk]
    rfl
  | .returnValue loc none => by
    rw [TypedStmt.nodes, TypedStmt.erase, Option.map_none, Stmt.walk]
    rfl
  | .returnValue loc (some value) => by
    rw [TypedStmt.nodes, map_cons, value.visit_nodes, TypedStmt.erase, Option.map_some, Stmt.walk]
    rfl
  | .breakLoop loc | .continueLoop loc => by
    rw [TypedStmt.nodes, TypedStmt.erase, Stmt.walk]
    rfl
  | .expression loc value => by
    rw [TypedStmt.nodes, map_cons, value.visit_nodes, TypedStmt.erase, Stmt.walk]
    rfl

theorem visit_blockNodes : (body : Block TypedStmt) →
    (blockNodes body).map TypedNode.visit = walkBlock (fun _ => false) (eraseBlock body)
  | ⟨loc, statements⟩ => by
    rw [blockNodes, map_cons, visit_stmtsNodes statements, eraseBlock, walkBlock]
    rfl

theorem visit_stmtsNodes : (stmts : List TypedStmt) →
    (stmtsNodes stmts).map TypedNode.visit = walkStmts (fun _ => false) (eraseStmts stmts)
  | [] => by rw [stmtsNodes, eraseStmts, walkStmts, map_nil]
  | stmt :: stmts => by
    rw [stmtsNodes, map_append, stmt.visit_nodes, visit_stmtsNodes stmts, eraseStmts, walkStmts]

theorem visit_branchesNodes : (branches : List (Branch TypedExpr TypedStmt)) →
    (branchesNodes branches).map TypedNode.visit = walkBranches (fun _ => false) (eraseBranches branches)
  | [] => by rw [branchesNodes, eraseBranches, walkBranches, map_nil]
  | ⟨loc, condition, body⟩ :: branches => by
    rw [branchesNodes, map_append, map_cons, map_append, condition.visit_nodes, visit_blockNodes body,
      visit_branchesNodes branches, eraseBranches, walkBranches]
    rfl

theorem visit_elseNodes : (otherwise : Option (Block TypedStmt)) →
    (elseNodes otherwise).map TypedNode.visit = walkElse (fun _ => false) (eraseElse otherwise)
  | none => by rw [elseNodes, eraseElse, walkElse, map_nil]
  | some body => by rw [elseNodes, visit_blockNodes body, eraseElse, walkElse]

end

theorem visit_membersNodes (kind : NodeKind) (members : List (Member TypedTypeExpr)) :
    (membersNodes kind members).map TypedNode.visit = walkMembers (fun _ => false) kind (members.map Member.erase) := by
  rw [membersNodes, walkMembers, map_flatMap, flatMap_map]
  refine congrArg (members.flatMap ·) (funext fun member => ?_)
  rw [map_cons, member.type.visit_nodes]
  rfl

theorem visit_headerNodes (header : Header TypedTypeExpr) :
    (headerNodes header).map TypedNode.visit = header.erase.walk fun _ => false := by
  rw [headerNodes, map_append, visit_membersNodes, visit_resultNodes]
  rfl

theorem visit_unresolvedNodes (fields : List (Member TypeExpr)) :
    (unresolvedNodes fields).map TypedNode.visit = walkMembers (fun _ => false) .structField fields := by
  rw [unresolvedNodes, walkMembers, map_flatMap]
  refine congrArg (fields.flatMap ·) (funext fun field => ?_)
  have hvisit : TypedNode.visit ∘ .unresolved = id := rfl
  rw [map_cons, map_map, hvisit, map_id]
  rfl

/-- The nodes of a checked item are those of the item as it was written. -/
theorem TypedItem.visit_nodes (item : TypedItem) : item.nodes.map TypedNode.visit = item.erase.walk fun _ => false := by
  cases item with
  | use | opaqueType | other => rfl
  | struct loc name fields =>
    rw [TypedItem.nodes, map_cons, visit_membersNodes]
    rfl
  | eclipsed loc name fields =>
    rw [TypedItem.nodes, map_cons, visit_unresolvedNodes]
    rfl
  | function loc header body signature =>
    rw [TypedItem.nodes, map_cons, map_append, visit_headerNodes, visit_blockNodes]
    rfl
  | builtin loc header signature =>
    rw [TypedItem.nodes, map_cons, visit_headerNodes]
    rfl

/-- The nodes of a checked module are those that a walk through the module as it was read visits. -/
theorem TypedModule.visit_nodes (module_ : TypedModule) :
    module_.nodes.map TypedNode.visit = module_.erase.walk fun _ => false := by
  rw [TypedModule.nodes, map_cons, map_flatMap, Module.walk, TypedModule.erase, flatMap_map]
  simp only [TypedItem.visit_nodes]
  rfl

/-- The types that are written in an expression itself. -/
def TypedExpr.writtenTypes : TypedExpr → List TypedTypeExpr
  | .call _ _ typeArgs _ _ _ => typeArgs
  | _ => []

/-- The nodes of the type that is written in a statement. -/
def TypedStmt.writtenNodes : TypedStmt → List TypedNode
  | .letBinding _ type _ => type.nodes
  | _ => []

/-- The nodes of a statement that are not in a block inside it. -/
def TypedStmt.ownNodes (stmt : TypedStmt) : List TypedNode :=
  .stmt stmt :: (stmt.writtenNodes ++ exprsNodes stmt.expressions)

section

variable {P : TypedNode → Prop} (hplain : ∀ {kind}, kind.isPlain = true → ∀ loc, P (.plain kind loc))

theorem forall_mem_typesNodes {types : List TypedTypeExpr} :
    (∀ node ∈ typesNodes types, P node) ↔ ∀ type ∈ types, ∀ node ∈ type.nodes, P node := by
  rw [typesNodes_eq_flatMap, forall_mem_flatMap]

theorem forall_mem_resultNodes {result : Option TypedTypeExpr} :
    (∀ node ∈ resultNodes result, P node) ↔ ∀ type ∈ result, ∀ node ∈ type.nodes, P node := by
  cases result <;> simp [resultNodes]

/-- All nodes of a resolved type are types. -/
theorem TypedTypeExpr.forall_mem_nodes (htype : ∀ written, P (.type written)) (type : TypedTypeExpr) :
    ∀ node ∈ type.nodes, P node := by
  induction type using TypedTypeExpr.induct with
  | named loc path args type hargs =>
    exact forall_mem_cons.2 ⟨htype _, forall_mem_typesNodes.2 hargs⟩
  | array loc element length type helement => exact forall_mem_cons.2 ⟨htype _, helement⟩
  | function loc params result type hparams hresult =>
    refine forall_mem_cons.2 ⟨htype _, forall_mem_append.2 ⟨forall_mem_typesNodes.2 hparams, ?_⟩⟩
    exact forall_mem_resultNodes.2 hresult

theorem forall_mem_exprsNodes {exprs : List TypedExpr} :
    (∀ node ∈ exprsNodes exprs, P node) ↔ ∀ e ∈ exprs, ∀ node ∈ e.nodes, P node := by
  rw [exprsNodes_eq_flatMap, forall_mem_flatMap]

theorem forall_mem_elseNodes {otherwise : Option (Block TypedStmt)} :
    (∀ node ∈ elseNodes otherwise, P node) ↔ ∀ body ∈ otherwise, ∀ node ∈ blockNodes body, P node := by
  cases otherwise <;> simp [elseNodes]

include hplain

theorem forall_mem_initsNodes {inits : List (FieldInit TypedExpr)} :
    (∀ node ∈ initsNodes inits, P node) ↔ ∀ init ∈ inits, ∀ node ∈ init.value.nodes, P node := by
  simp only [initsNodes_eq_flatMap, forall_mem_flatMap, forall_mem_cons, @hplain .fieldInit rfl, true_and]

/-- But for the block itself, the nodes of a block are those of its statements. -/
theorem forall_mem_blockNodes {body : Block TypedStmt} :
    (∀ node ∈ blockNodes body, P node) ↔ ∀ stmt ∈ body.statements, ∀ node ∈ stmt.nodes, P node := by
  rw [blockNodes_eq, forall_mem_cons, and_iff_right (hplain rfl _), forall_mem_flatMap]

theorem forall_mem_branchesNodes {branches : List (Branch TypedExpr TypedStmt)} :
    (∀ node ∈ branchesNodes branches, P node) ↔
      (∀ branch ∈ branches, ∀ node ∈ branch.condition.nodes, P node) ∧
        ∀ branch ∈ branches, ∀ node ∈ blockNodes branch.body, P node := by
  simp only [branchesNodes_eq_flatMap, forall_mem_flatMap, forall_mem_cons, @hplain .branch rfl, true_and,
    forall_mem_append, imp_and, forall_and]

theorem forall_mem_membersNodes {kind : NodeKind} (hkind : kind.isPlain = true) {members : List (Member TypedTypeExpr)}
    (h : ∀ member ∈ members, ∀ node ∈ member.type.nodes, P node) : ∀ node ∈ membersNodes kind members, P node := by
  intro node hnode
  obtain ⟨member, hmember, hnode⟩ := mem_flatMap.1 hnode
  exact forall_mem_cons.2 ⟨hplain hkind _, h member hmember⟩ node hnode

theorem forall_mem_unresolvedNodes (hunresolved : ∀ visit, P (.unresolved visit)) (fields : List (Member TypeExpr)) :
    ∀ node ∈ unresolvedNodes fields, P node := by
  intro node hnode
  obtain ⟨field, _, hnode⟩ := mem_flatMap.1 hnode
  rcases mem_cons.1 hnode with rfl | hnode
  · exact hplain rfl field.loc
  · obtain ⟨visit, _, rfl⟩ := mem_map.1 hnode
    exact hunresolved visit

/-- The nodes of an expression are its parts and the types that are written in them, or plain. -/
theorem TypedExpr.forall_mem_nodes_of_parts (e : TypedExpr) (h : ∀ part : TypedExpr, part.PartOf e →
      P (.expr part) ∧ ∀ type ∈ part.writtenTypes, ∀ node ∈ type.nodes, P node) : ∀ node ∈ e.nodes, P node := by
  induction e using TypedExpr.induct with
  | literal | binding | field => exact forall_mem_singleton.2 (h _ .whole).1
  | call loc callee typeArgs args target type ih =>
    obtain ⟨hself, htypes⟩ := h _ .whole
    refine forall_mem_cons.2 ⟨hself, forall_mem_append.2 ⟨forall_mem_typesNodes.2 htypes, ?_⟩⟩
    exact forall_mem_exprsNodes.2 fun arg harg => ih arg harg fun part hpart => h part (.argument harg hpart)
  | init loc path fields struct ih =>
    refine forall_mem_cons.2 ⟨(h _ .whole).1, (forall_mem_initsNodes hplain).2 fun field hfield => ?_⟩
    exact ih field hfield fun part hpart => h part (.field hfield hpart)
  | unary loc op operand type ih =>
    exact forall_mem_cons.2 ⟨(h _ .whole).1, ih fun part hpart => h part (.operand hpart)⟩
  | binary loc op left right type ihLeft ihRight =>
    refine forall_mem_cons.2 ⟨(h _ .whole).1, forall_mem_append.2 ⟨?_, ?_⟩⟩
    · exact ihLeft fun part hpart => h part (.left hpart)
    · exact ihRight fun part hpart => h part (.right hpart)
  | paren loc inner ih => exact forall_mem_cons.2 ⟨(h _ .whole).1, ih fun part hpart => h part (.inner hpart)⟩

/-- The nodes of a statement are itself if it is no block, those that are written in it, and those of the blocks
    inside it, or plain. -/
theorem TypedStmt.forall_mem_nodes_iff {stmt : TypedStmt} :
    (∀ node ∈ stmt.nodes, P node) ↔ ((∀ body, stmt ≠ .block body) → P (.stmt stmt)) ∧
      (∀ node ∈ stmt.writtenNodes, P node) ∧ (∀ e ∈ stmt.expressions, ∀ node ∈ e.nodes, P node) ∧
        ∀ block ∈ stmt.blocks, ∀ node ∈ blockNodes block, P node := by
  cases stmt with
  | block body => simp [TypedStmt.nodes, writtenNodes, expressions, blocks]
  | letBinding symbol type value =>
    simp [TypedStmt.nodes, writtenNodes, expressions, blocks, or_imp, forall_and]
  | assign loc target fields value | expression loc value =>
    simp [TypedStmt.nodes, writtenNodes, expressions, blocks]
  | ifChain loc branches otherwise =>
    rw [TypedStmt.nodes, forall_mem_cons, forall_mem_append, forall_mem_branchesNodes hplain,
      forall_mem_elseNodes]
    simp [writtenNodes, expressions, blocks, or_imp, forall_and, and_assoc]
  | whileLoop loc condition body =>
    simp [TypedStmt.nodes, writtenNodes, expressions, blocks, or_imp, forall_and]
  | returnValue loc value => cases value <;> simp [TypedStmt.nodes, writtenNodes, expressions, blocks]
  | breakLoop | continueLoop => simp [TypedStmt.nodes, writtenNodes, expressions, blocks]

section

variable (htype : ∀ written, P (.type written))
include htype

omit hplain in
theorem TypedStmt.forall_mem_writtenNodes (stmt : TypedStmt) : ∀ node ∈ stmt.writtenNodes, P node := by
  cases stmt with
  | letBinding _ type _ => exact type.forall_mem_nodes htype
  | _ => exact forall_mem_nil _

/-- The nodes of a header are types, or plain. -/
theorem forall_mem_headerNodes (header : Header TypedTypeExpr) : ∀ node ∈ headerNodes header, P node := by
  refine forall_mem_append.2 ⟨?_, forall_mem_resultNodes.2 fun type _ => type.forall_mem_nodes htype⟩
  exact forall_mem_membersNodes hplain rfl fun member _ => member.type.forall_mem_nodes htype

variable (hexpr : ∀ e, P (.expr e))
include hexpr

/-- The nodes of an expression are types or expressions, or plain. -/
theorem TypedExpr.forall_mem_nodes (e : TypedExpr) : ∀ node ∈ e.nodes, P node :=
  e.forall_mem_nodes_of_parts hplain fun part _ => ⟨hexpr part, fun type _ => type.forall_mem_nodes htype⟩

variable (hstmt : ∀ stmt, P (.stmt stmt))
include hstmt

/-- The nodes of a statement are types, expressions or statements, or plain. -/
theorem TypedStmt.forall_mem_nodes (stmt : TypedStmt) : ∀ node ∈ stmt.nodes, P node := by
  induction stmt using TypedStmt.inductBlocks with
  | step stmt ih =>
    refine (TypedStmt.forall_mem_nodes_iff hplain).2 ⟨fun _ => hstmt stmt, ?_, ?_, fun block hblock => ?_⟩
    · exact stmt.forall_mem_writtenNodes htype
    · exact fun e _ => e.forall_mem_nodes hplain htype hexpr
    · exact (forall_mem_blockNodes hplain).2 (ih block hblock)

/-- The nodes of an item are, but for itself, types, expressions or statements, or plain. -/
theorem TypedItem.forall_mem_nodes (hunresolved : ∀ visit, P (.unresolved visit)) {item : TypedItem}
    (hitem : P (.item item)) :
    ∀ node ∈ item.nodes, P node := by
  refine forall_mem_cons.2 ⟨hitem, ?_⟩
  cases item with
  | use | opaqueType | other => exact forall_mem_nil _
  | struct loc name fields =>
    exact forall_mem_membersNodes hplain rfl fun field _ => field.type.forall_mem_nodes htype
  | eclipsed loc name fields => exact forall_mem_unresolvedNodes hplain hunresolved fields
  | function loc header body signature =>
    refine forall_mem_append.2 ⟨forall_mem_headerNodes hplain htype header, ?_⟩
    exact (forall_mem_blockNodes hplain).2 fun stmt _ => stmt.forall_mem_nodes hplain htype hexpr hstmt
  | builtin loc header signature => exact forall_mem_headerNodes hplain htype header

end

end

end Smpl
