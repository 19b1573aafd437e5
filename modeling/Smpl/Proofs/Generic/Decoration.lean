import Smpl.Proofs.Checker.Stmt
import Smpl.Proofs.Generic.Subst

namespace Smpl

variable (images : TypeParam → Ty)

mutual

/-- Replaces the type parameters in the types that a written type and its parts were found to denote. -/
def TypedTypeExpr.subst : TypedTypeExpr → TypedTypeExpr
  | .named loc path args type => .named loc path (substTypes args) (type.subst images)
  | .array loc element length type => .array loc element.subst length (type.subst images)
  | .function loc params result type =>
    .function loc (substTypes params) (substResult result) (type.subst images)

def substTypes : List TypedTypeExpr → List TypedTypeExpr
  | [] => []
  | type :: types => type.subst :: substTypes types

def substResult : Option TypedTypeExpr → Option TypedTypeExpr
  | none => none
  | some type => some type.subst

end

def Local.subst (symbol : Local) : Local :=
  { symbol with type := symbol.type.subst images }

/-- A function keeps its own signature wherever its name stands. -/
def Referent.subst : Referent → Referent
  | .binding symbol => .binding (symbol.subst images)
  | .function signature => .function signature

mutual

/-- Replaces the type parameters in all that checking added to an expression. -/
def TypedExpr.subst : TypedExpr → TypedExpr
  | .literal loc value => .literal loc value
  | .binding loc path referent => .binding loc path (referent.subst images)
  | .field loc root fields type => .field loc (root.subst images) fields (type.subst images)
  | .call loc callee typeArgs args target type =>
    .call loc callee (substTypes images typeArgs) (substExprs args) (target.subst images) (type.subst images)
  | .init loc path fields struct => .init loc path (substInits fields) struct
  | .unary loc op operand type => .unary loc op operand.subst (type.subst images)
  | .binary loc op left right type => .binary loc op left.subst right.subst (type.subst images)
  | .paren loc inner => .paren loc inner.subst

def substExprs : List TypedExpr → List TypedExpr
  | [] => []
  | expr :: exprs => expr.subst :: substExprs exprs

def substInits : List (FieldInit TypedExpr) → List (FieldInit TypedExpr)
  | [] => []
  | ⟨loc, name, value⟩ :: inits => ⟨loc, name, value.subst⟩ :: substInits inits

end

mutual

/-- Replaces the type parameters in all that checking added to a statement. -/
def TypedStmt.subst : TypedStmt → TypedStmt
  | .block body => .block (substBlock body)
  | .letBinding symbol type value => .letBinding (symbol.subst images) (type.subst images) (value.subst images)
  | .assign loc target fields value => .assign loc (target.subst images) fields (value.subst images)
  | .ifChain loc branches otherwise => .ifChain loc (substBranches branches) (substElse otherwise)
  | .whileLoop loc condition body => .whileLoop loc (condition.subst images) (substBlock body)
  | .returnValue loc value => .returnValue loc (value.map (TypedExpr.subst images))
  | .breakLoop loc => .breakLoop loc
  | .continueLoop loc => .continueLoop loc
  | .expression loc value => .expression loc (value.subst images)

def substBlock : Block TypedStmt → Block TypedStmt
  | ⟨loc, statements⟩ => ⟨loc, substStmts statements⟩

def substStmts : List TypedStmt → List TypedStmt
  | [] => []
  | stmt :: stmts => stmt.subst :: substStmts stmts

def substBranches : List (Branch TypedExpr TypedStmt) → List (Branch TypedExpr TypedStmt)
  | [] => []
  | ⟨loc, condition, body⟩ :: branches =>
    ⟨loc, condition.subst images, substBlock body⟩ :: substBranches branches

def substElse : Option (Block TypedStmt) → Option (Block TypedStmt)
  | none => none
  | some body => some (substBlock body)

end

variable {images}

@[simp] theorem TypedTypeExpr.type_subst (type : TypedTypeExpr) :
    (type.subst images).type = type.type.subst images := by
  cases type <;> simp [TypedTypeExpr.subst, TypedTypeExpr.type]

theorem substTypes_eq_map (types : List TypedTypeExpr) :
    substTypes images types = types.map (TypedTypeExpr.subst images) :=
  eq_map_of_cons rfl fun _ _ => rfl

theorem map_type_substTypes (types : List TypedTypeExpr) :
    (substTypes images types).map (·.type) = (types.map (·.type)).map (Ty.subst images) := by
  simp [substTypes_eq_map, Function.comp_def]

theorem resultType_substResult (result : Option TypedTypeExpr) :
    ((substResult images result).map (·.type)).getD .unit = Ty.subst images ((result.map (·.type)).getD .unit) := by
  cases result <;> simp [substResult, Ty.unit, Ty.subst]

theorem substExprs_eq_map (exprs : List TypedExpr) : substExprs images exprs = exprs.map (TypedExpr.subst images) :=
  eq_map_of_cons rfl fun _ _ => rfl

theorem substInits_eq_map (inits : List (FieldInit TypedExpr)) :
    substInits images inits = inits.map fun init => { init with value := init.value.subst images } :=
  eq_map_of_cons rfl fun _ _ => rfl

theorem substBranches_eq_map (branches : List (Branch TypedExpr TypedStmt)) :
    substBranches images branches = branches.map fun branch =>
      ⟨branch.loc, branch.condition.subst images, substBlock images branch.body⟩ :=
  eq_map_of_cons rfl fun _ _ => rfl

mutual

@[simp] theorem TypedTypeExpr.subst_param : (type : TypedTypeExpr) → type.subst .param = type
  | .named loc path args type => by rw [TypedTypeExpr.subst, substTypes_param args, Ty.subst_param]
  | .array loc element length type => by rw [TypedTypeExpr.subst, element.subst_param, Ty.subst_param]
  | .function loc params result type => by
    rw [TypedTypeExpr.subst, substTypes_param params, substResult_param result, Ty.subst_param]

theorem substTypes_param : (types : List TypedTypeExpr) → substTypes .param types = types
  | [] => rfl
  | type :: types => by rw [substTypes, type.subst_param, substTypes_param types]

@[simp] theorem substResult_param : (result : Option TypedTypeExpr) → substResult .param result = result
  | none => rfl
  | some type => by rw [substResult, type.subst_param]

end

@[simp] theorem Local.subst_param (symbol : Local) : symbol.subst .param = symbol := by
  rw [Local.subst, Ty.subst_param]

theorem Referent.subst_param (referent : Referent) : referent.subst .param = referent := by
  cases referent with
  | binding symbol => rw [Referent.subst, symbol.subst_param]
  | function signature => rfl

mutual

theorem TypedExpr.subst_param : (e : TypedExpr) → e.subst .param = e
  | .literal _ _ => rfl
  | .binding loc path referent => by rw [TypedExpr.subst, referent.subst_param]
  | .field loc root fields type => by rw [TypedExpr.subst, root.subst_param, Ty.subst_param]
  | .call loc callee typeArgs args target type => by
    rw [TypedExpr.subst, substTypes_param, substExprs_param args, target.subst_param, Ty.subst_param]
  | .init loc path fields struct => by rw [TypedExpr.subst, substInits_param fields]
  | .unary loc op operand type => by rw [TypedExpr.subst, operand.subst_param, Ty.subst_param]
  | .binary loc op left right type => by rw [TypedExpr.subst, left.subst_param, right.subst_param, Ty.subst_param]
  | .paren loc inner => by rw [TypedExpr.subst, inner.subst_param]

theorem substExprs_param : (exprs : List TypedExpr) → substExprs .param exprs = exprs
  | [] => rfl
  | e :: exprs => by rw [substExprs, e.subst_param, substExprs_param exprs]

theorem substInits_param : (inits : List (FieldInit TypedExpr)) → substInits .param inits = inits
  | [] => rfl
  | ⟨loc, name, value⟩ :: inits => by rw [substInits, value.subst_param, substInits_param inits]

end

mutual

/-- Nothing changes if each parameter stands for itself. -/
theorem TypedStmt.subst_param : (stmt : TypedStmt) → stmt.subst .param = stmt
  | .block body => by rw [TypedStmt.subst, substBlock_param body]
  | .letBinding symbol type value => by
    rw [TypedStmt.subst, symbol.subst_param, type.subst_param, value.subst_param]
  | .assign loc target fields value => by rw [TypedStmt.subst, target.subst_param, value.subst_param]
  | .ifChain loc branches otherwise => by
    rw [TypedStmt.subst, substBranches_param branches, substElse_param otherwise]
  | .whileLoop loc condition body => by rw [TypedStmt.subst, condition.subst_param, substBlock_param body]
  | .returnValue loc none => by rw [TypedStmt.subst, Option.map_none]
  | .returnValue loc (some value) => by rw [TypedStmt.subst, Option.map_some, value.subst_param]
  | .breakLoop loc | .continueLoop loc => by rw [TypedStmt.subst]
  | .expression loc value => by rw [TypedStmt.subst, value.subst_param]

@[simp] theorem substBlock_param : (body : Block TypedStmt) → substBlock .param body = body
  | ⟨loc, statements⟩ => by rw [substBlock, substStmts_param statements]

theorem substStmts_param : (stmts : List TypedStmt) → substStmts .param stmts = stmts
  | [] => by rw [substStmts]
  | stmt :: stmts => by rw [substStmts, stmt.subst_param, substStmts_param stmts]

theorem substBranches_param : (branches : List (Branch TypedExpr TypedStmt)) → substBranches .param branches = branches
  | [] => by rw [substBranches]
  | ⟨loc, condition, body⟩ :: branches => by
    rw [substBranches, condition.subst_param, substBlock_param body, substBranches_param branches]

theorem substElse_param : (otherwise : Option (Block TypedStmt)) → substElse .param otherwise = otherwise
  | none => by rw [substElse]
  | some body => by rw [substElse, substBlock_param body]

end

namespace Scope

/-- The same declarations with their types substituted. -/
def subst (images : TypeParam → Ty) (scope : Scope) : Scope :=
  ⟨scope.current.map (Local.subst images), scope.outer.map (List.map (Local.subst images))⟩

theorem map_name_subst (scope : Scope) :
    (scope.subst images).current.map (·.name) = scope.current.map (·.name) := by
  rw [subst, List.map_map]
  rfl

/-- A name has the same binding, with its type substituted. -/
theorem lookup_subst (scope : Scope) (name : String) :
    (scope.subst images).lookup name = (scope.lookup name).map (Local.subst images) := by
  have hframe : ∀ frame : Frame, findIn name (frame.map (Local.subst images)) =
      (findIn name frame).map (Local.subst images) := by
    intro frame
    rw [findIn, findIn, List.find?_map]
    rfl
  have hframes : (scope.subst images).frames = scope.frames.map (List.map (Local.subst images)) := rfl
  rw [lookup, lookup, hframes, List.findSome?_map, List.map_findSome?]
  exact congrArg (List.findSome? · scope.frames) (funext hframe)

theorem lookup_subst_eq_some {scope : Scope} {name : String} {symbol : Local} (h : scope.lookup name = some symbol) :
    (scope.subst images).lookup name = some (symbol.subst images) := by
  rw [lookup_subst, h, Option.map_some]

end Scope

namespace Context

variable {loc : Location}

/-- An operator takes the instances of its operands, and its type is the instance. -/
theorem unaryType_subst {op : UnaryOp} {operand type : Ty} (h : unaryType op operand loc = .ok type) :
    unaryType op (operand.subst images) loc = .ok (type.subst images) := by
  rw [unaryType_eq_ok_iff] at h ⊢
  cases op with
  | negate =>
    obtain ⟨rfl, hnumeric⟩ := h
    rcases Ty.isNumeric_iff.1 hnumeric with rfl | rfl <;> exact ⟨rfl, rfl⟩
  | not =>
    obtain ⟨rfl, rfl⟩ := h
    exact ⟨rfl, rfl⟩
  | reference =>
    obtain rfl := h
    rfl
  | dereference =>
    obtain rfl := h
    rfl

/-- Both operands stay of one type. -/
theorem binaryType_subst {op : BinaryOp} {left right left' right' : TypedExpr} {type : Ty}
    (hleft : left'.type = left.type.subst images) (hright : right'.type = right.type.subst images)
    (h : binaryType op left right = .ok type) : binaryType op left' right' = .ok (type.subst images) := by
  rw [binaryType_eq_ok_iff] at h ⊢
  rw [hleft, hright]
  split at h
  · next hlogical =>
    obtain ⟨hbool, hbool', rfl⟩ := h
    rw [if_pos hlogical, hbool, hbool']
    exact ⟨rfl, rfl, rfl⟩
  · next hlogical =>
    rw [if_neg hlogical]
    split at h
    · next hequality =>
      obtain ⟨hprimitive, hsame, rfl⟩ := h
      obtain ⟨primitive, heq, hunit⟩ := Ty.isPrimitive_iff.1 hprimitive
      rw [if_pos hequality, hsame, heq]
      exact ⟨Ty.isPrimitive_iff.2 ⟨primitive, rfl, hunit⟩, rfl, rfl⟩
    · next hequality =>
      obtain ⟨hnumeric, hsame, rfl⟩ := h
      have hkept : left.type.subst images = left.type := by
        rcases Ty.isNumeric_iff.1 hnumeric with heq | heq <;> rw [heq] <;> rfl
      rw [if_neg hequality, hsame, hkept]
      refine ⟨hnumeric, rfl, ?_⟩
      split
      · rfl
      · exact hkept

end Context

end Smpl
