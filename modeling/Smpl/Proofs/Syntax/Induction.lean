import Smpl.Proofs.Traverse
import Smpl.Typed.Tree

namespace Smpl

open List

theorem forall_mem_cons_of {α : Type} {p : α → Prop} (a : α) (as : List α) (hfirst : p a) (hothers : ∀ b ∈ as, p b) :
    ∀ b ∈ a :: as, p b :=
  forall_mem_cons.2 ⟨hfirst, hothers⟩

/-- Induction over a written type: the types inside it have the property already. -/
@[elab_as_elim] theorem TypeExpr.induct {motive : TypeExpr → Prop}
    (named : ∀ loc path args, (∀ type ∈ args, motive type) → motive (.named loc path args))
    (array : ∀ loc element length, motive element → motive (.array loc element length))
    (function : ∀ loc params result, (∀ type ∈ params, motive type) → (∀ type ∈ result, motive type) →
      motive (.function loc params result))
    (unknown : ∀ node, motive (.unknown node)) (type : TypeExpr) : motive type :=
  @TypeExpr.rec motive (fun types => ∀ type ∈ types, motive type) (fun result => ∀ type ∈ result, motive type)
    named array function unknown
    (forall_mem_nil _) forall_mem_cons_of
    nofun (fun _ htype _ heq => Option.mem_some.1 heq ▸ htype) type

/-- Induction over an expression: the expressions inside it have the property already. -/
@[elab_as_elim] theorem Expr.induct {motive : Expr → Prop}
    (literal : ∀ loc value, motive (.literal loc value))
    (binding : ∀ loc path, motive (.binding loc path))
    (field : ∀ loc root fields, motive (.field loc root fields))
    (call : ∀ loc callee typeArgs args, (∀ e ∈ args, motive e) → motive (.call loc callee typeArgs args))
    (init : ∀ loc struct fields, (∀ init ∈ fields, motive (FieldInit.value init)) → motive (.init loc struct fields))
    (unary : ∀ loc op operand, motive operand → motive (.unary loc op operand))
    (binary : ∀ loc op left right, motive left → motive right → motive (.binary loc op left right))
    (paren : ∀ loc inner, motive inner → motive (.paren loc inner))
    (operatorless : ∀ loc operands, (∀ e ∈ operands, motive e) → motive (.operatorless loc operands))
    (unknown : ∀ node, motive (.unknown node)) (e : Expr) : motive e :=
  @Expr.rec motive (fun exprs => ∀ e ∈ exprs, motive e) (fun inits => ∀ init ∈ inits, motive init.value)
    (fun init => motive init.value)
    literal binding field call init unary binary paren operatorless unknown
    (forall_mem_nil _) forall_mem_cons_of
    (forall_mem_nil _) forall_mem_cons_of
    (fun _ _ _ hvalue => hvalue) e

/-- Induction over a statement: the statements inside it have the property already. -/
@[elab_as_elim] theorem Stmt.induct {motive : Stmt → Prop}
    (block : ∀ body, (∀ stmt ∈ Block.statements body, motive stmt) → motive (.block body))
    (letBinding : ∀ loc name type value, motive (.letBinding loc name type value))
    (assign : ∀ loc target fields value, motive (.assign loc target fields value))
    (ifChain : ∀ loc branches otherwise,
      (∀ branch ∈ branches, ∀ stmt ∈ Block.statements (Branch.body branch), motive stmt) →
      (∀ body ∈ otherwise, ∀ stmt ∈ Block.statements body, motive stmt) → motive (.ifChain loc branches otherwise))
    (whileLoop : ∀ loc condition body, (∀ stmt ∈ Block.statements body, motive stmt) →
      motive (.whileLoop loc condition body))
    (returnValue : ∀ loc value, motive (.returnValue loc value))
    (breakLoop : ∀ loc, motive (.breakLoop loc))
    (continueLoop : ∀ loc, motive (.continueLoop loc))
    (expression : ∀ loc value, motive (.expression loc value))
    (unknown : ∀ node, motive (.unknown node)) (stmt : Stmt) : motive stmt :=
  @Stmt.rec motive (fun body => ∀ stmt ∈ body.statements, motive stmt)
    (fun branches => ∀ branch ∈ branches, ∀ stmt ∈ branch.body.statements, motive stmt)
    (fun otherwise => ∀ body ∈ otherwise, ∀ stmt ∈ body.statements, motive stmt)
    (fun stmts => ∀ stmt ∈ stmts, motive stmt) (fun branch => ∀ stmt ∈ branch.body.statements, motive stmt)
    block letBinding assign ifChain whileLoop returnValue breakLoop continueLoop expression unknown
    (fun _ _ hstmts => hstmts)
    (forall_mem_nil _) forall_mem_cons_of
    nofun (fun _ hbody _ heq => Option.mem_some.1 heq ▸ hbody)
    (forall_mem_nil _) forall_mem_cons_of
    (fun _ _ _ hbody => hbody) stmt

/-- The blocks inside a statement. -/
def Stmt.blocks : Stmt → List (Block Stmt)
  | .block body | .whileLoop _ _ body => [body]
  | .ifChain _ branches otherwise => branches.map (·.body) ++ otherwise.toList
  | _ => []

/-- Induction over statements that follow each other: the blocks inside the first one, and the statements
    after it, have the property already. -/
@[elab_as_elim] theorem Stmt.inductList {motive : List Stmt → Prop} (nil : motive [])
    (cons : ∀ stmt rest, (∀ block ∈ Stmt.blocks stmt, motive (Block.statements block)) → motive rest →
      motive (stmt :: rest)) (stmts : List Stmt) : motive stmts := by
  have hlist : ∀ stmts : List Stmt, (∀ stmt ∈ stmts, ∀ rest, motive rest → motive (stmt :: rest)) → motive stmts :=
    fun stmts hstmts => forall_mem_induct stmts hstmts nil fun _ rest hfirst ih => hfirst rest ih
  suffices hall : ∀ stmt rest, motive rest → motive (stmt :: rest) from hlist stmts fun stmt _ => hall stmt
  intro stmt
  induction stmt using Stmt.induct with
  | block body hbody => exact fun rest => cons _ rest (forall_mem_singleton.2 (hlist _ hbody))
  | whileLoop loc condition body hbody => exact fun rest => cons _ rest (forall_mem_singleton.2 (hlist _ hbody))
  | ifChain loc branches otherwise hbranches hotherwise =>
    refine fun rest => cons _ rest (forall_mem_append.2 ⟨forall_mem_map.2 fun branch hbranch => ?_, ?_⟩)
    · exact hlist _ (hbranches branch hbranch)
    · exact fun body hbody => hlist _ (hotherwise body (Option.mem_toList.1 hbody))
  | _ => exact fun rest => cons _ rest (forall_mem_nil _)

/-- Induction over a resolved type: the types inside it have the property already. -/
@[elab_as_elim] theorem TypedTypeExpr.induct {motive : TypedTypeExpr → Prop}
    (named : ∀ loc path args type, (∀ part ∈ args, motive part) → motive (.named loc path args type))
    (array : ∀ loc element length type, motive element → motive (.array loc element length type))
    (function : ∀ loc params result type, (∀ part ∈ params, motive part) → (∀ part ∈ result, motive part) →
      motive (.function loc params result type)) (type : TypedTypeExpr) : motive type :=
  @TypedTypeExpr.rec motive (fun types => ∀ type ∈ types, motive type) (fun result => ∀ type ∈ result, motive type)
    named array function
    (forall_mem_nil _) forall_mem_cons_of
    nofun (fun _ htype _ heq => Option.mem_some.1 heq ▸ htype) type

/-- Induction over a checked expression: the expressions inside it have the property already. -/
@[elab_as_elim] theorem TypedExpr.induct {motive : TypedExpr → Prop}
    (literal : ∀ loc value, motive (.literal loc value))
    (binding : ∀ loc path referent, motive (.binding loc path referent))
    (field : ∀ loc root fields type, motive (.field loc root fields type))
    (call : ∀ loc callee typeArgs args target type, (∀ e ∈ args, motive e) →
      motive (.call loc callee typeArgs args target type))
    (init : ∀ loc path fields struct, (∀ init ∈ fields, motive (FieldInit.value init)) →
      motive (.init loc path fields struct))
    (unary : ∀ loc op operand type, motive operand → motive (.unary loc op operand type))
    (binary : ∀ loc op left right type, motive left → motive right → motive (.binary loc op left right type))
    (paren : ∀ loc inner, motive inner → motive (.paren loc inner)) (e : TypedExpr) : motive e :=
  @TypedExpr.rec motive (fun exprs => ∀ e ∈ exprs, motive e) (fun inits => ∀ init ∈ inits, motive init.value)
    (fun init => motive init.value)
    literal binding field call init unary binary paren
    (forall_mem_nil _) forall_mem_cons_of
    (forall_mem_nil _) forall_mem_cons_of
    (fun _ _ _ hvalue => hvalue) e

/-- Induction over a checked statement: the statements inside it have the property already. -/
@[elab_as_elim] theorem TypedStmt.induct {motive : TypedStmt → Prop}
    (block : ∀ body, (∀ stmt ∈ Block.statements body, motive stmt) → motive (.block body))
    (letBinding : ∀ symbol type value, motive (.letBinding symbol type value))
    (assign : ∀ loc target fields value, motive (.assign loc target fields value))
    (ifChain : ∀ loc branches otherwise,
      (∀ branch ∈ branches, ∀ stmt ∈ Block.statements (Branch.body branch), motive stmt) →
      (∀ body ∈ otherwise, ∀ stmt ∈ Block.statements body, motive stmt) → motive (.ifChain loc branches otherwise))
    (whileLoop : ∀ loc condition body, (∀ stmt ∈ Block.statements body, motive stmt) →
      motive (.whileLoop loc condition body))
    (returnValue : ∀ loc value, motive (.returnValue loc value))
    (breakLoop : ∀ loc, motive (.breakLoop loc))
    (continueLoop : ∀ loc, motive (.continueLoop loc))
    (expression : ∀ loc value, motive (.expression loc value)) (stmt : TypedStmt) : motive stmt :=
  @TypedStmt.rec motive (fun body => ∀ stmt ∈ body.statements, motive stmt)
    (fun branches => ∀ branch ∈ branches, ∀ stmt ∈ branch.body.statements, motive stmt)
    (fun otherwise => ∀ body ∈ otherwise, ∀ stmt ∈ body.statements, motive stmt)
    (fun stmts => ∀ stmt ∈ stmts, motive stmt) (fun branch => ∀ stmt ∈ branch.body.statements, motive stmt)
    block letBinding assign ifChain whileLoop returnValue breakLoop continueLoop expression
    (fun _ _ hstmts => hstmts)
    (forall_mem_nil _) forall_mem_cons_of
    nofun (fun _ hbody _ heq => Option.mem_some.1 heq ▸ hbody)
    (forall_mem_nil _) forall_mem_cons_of
    (fun _ _ _ hbody => hbody) stmt

/-- The expressions inside a checked expression, itself among them. -/
inductive TypedExpr.PartOf (part : TypedExpr) : TypedExpr → Prop
  | whole : PartOf part part
  | argument {loc : Location} {callee : Path} {typeArgs : List TypedTypeExpr} {args : List TypedExpr}
      {target : Referent} {type : Ty} {arg : TypedExpr} :
    arg ∈ args → PartOf part arg → PartOf part (.call loc callee typeArgs args target type)
  | field {loc : Location} {path : Path} {fields : List (FieldInit TypedExpr)} {struct : ItemName}
      {field : FieldInit TypedExpr} :
    field ∈ fields → PartOf part field.value → PartOf part (.init loc path fields struct)
  | operand {loc : Location} {op : UnaryOp} {operand : TypedExpr} {type : Ty} :
    PartOf part operand → PartOf part (.unary loc op operand type)
  | left {loc : Location} {op : BinaryOp} {left right : TypedExpr} {type : Ty} :
    PartOf part left → PartOf part (.binary loc op left right type)
  | right {loc : Location} {op : BinaryOp} {left right : TypedExpr} {type : Ty} :
    PartOf part right → PartOf part (.binary loc op left right type)
  | inner {loc : Location} {inner : TypedExpr} : PartOf part inner → PartOf part (.paren loc inner)

namespace TypedStmt

/-- The expressions that stand in a statement itself, and not in a block inside it. -/
def expressions : TypedStmt → List TypedExpr
  | .letBinding _ _ value | .assign _ _ _ value | .expression _ value => [value]
  | .ifChain _ branches _ => branches.map (·.condition)
  | .whileLoop _ condition _ => [condition]
  | .returnValue _ value => value.toList
  | .block _ | .breakLoop _ | .continueLoop _ => []

/-- The blocks inside a statement. -/
def blocks : TypedStmt → List (Block TypedStmt)
  | .block body | .whileLoop _ _ body => [body]
  | .ifChain _ branches otherwise => branches.map (·.body) ++ otherwise.toList
  | _ => []

/-- Induction over a checked statement by the blocks inside it. -/
@[elab_as_elim] theorem inductBlocks {motive : TypedStmt → Prop}
    (step : ∀ stmt : TypedStmt, (∀ block ∈ stmt.blocks, ∀ inner ∈ Block.statements block, motive inner) → motive stmt)
    (stmt : TypedStmt) : motive stmt := by
  induction stmt using TypedStmt.induct with
  | block body ih => exact step _ (forall_mem_singleton.2 ih)
  | whileLoop loc condition body ih => exact step _ (forall_mem_singleton.2 ih)
  | ifChain loc branches otherwise ihBranches ihOtherwise =>
    refine step _ (forall_mem_append.2 ⟨forall_mem_map.2 ihBranches, fun body hbody => ?_⟩)
    exact ihOtherwise body (Option.mem_toList.1 hbody)
  | _ => exact step _ (forall_mem_nil _)

end TypedStmt

end Smpl
