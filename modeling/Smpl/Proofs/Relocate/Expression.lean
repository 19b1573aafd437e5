import Smpl.Proofs.Relocate.Declaration
import Smpl.Typed.Expr

namespace Smpl

open List

variable (move : Location → Location)

def Local.relocate (symbol : Local) : Local :=
  { symbol with loc := move symbol.loc }

def Scope.relocate (scope : Scope) : Scope :=
  ⟨scope.current.map (Local.relocate move), scope.outer.map (List.map (Local.relocate move))⟩

def Referent.relocate : Referent → Referent
  | .binding symbol => .binding (symbol.relocate move)
  | .function signature => .function (signature.relocate move)

mutual

/-- Moves a checked expression, with the declarations that its names stand for. -/
def TypedExpr.relocate : TypedExpr → TypedExpr
  | .literal loc value => .literal (move loc) value
  | .binding loc path referent => .binding (move loc) path (referent.relocate move)
  | .field loc root fields type => .field (move loc) (root.relocate move) fields type
  | .call loc callee typeArgs args target type =>
    .call (move loc) callee (typeArgs.map (TypedTypeExpr.relocate move)) (relocateTypedExprs args)
      (target.relocate move) type
  | .init loc path fields struct => .init (move loc) path (relocateTypedInits fields) struct
  | .unary loc op operand type => .unary (move loc) op operand.relocate type
  | .binary loc op left right type => .binary (move loc) op left.relocate right.relocate type
  | .paren loc inner => .paren (move loc) inner.relocate

def relocateTypedExprs : List TypedExpr → List TypedExpr
  | [] => []
  | expr :: exprs => expr.relocate :: relocateTypedExprs exprs

def relocateTypedInits : List (FieldInit TypedExpr) → List (FieldInit TypedExpr)
  | [] => []
  | ⟨loc, name, value⟩ :: inits => ⟨move loc, name, value.relocate⟩ :: relocateTypedInits inits

end

def Context.Callee.relocate (callee : Context.Callee) : Context.Callee where
  target := callee.target.relocate move
  typeArgs := callee.typeArgs.map (TypedTypeExpr.relocate move)
  params := callee.params
  result := callee.result

def Context.relocate (ctx : Context) : Context :=
  { ctx with registry := ctx.registry.relocate move }

variable {move}

theorem relocateTypedExprs_eq_map (exprs : List TypedExpr) :
    relocateTypedExprs move exprs = exprs.map (TypedExpr.relocate move) :=
  eq_map_of_cons rfl fun _ _ => rfl

@[simp] theorem Referent.type_relocate (referent : Referent) : (referent.relocate move).type = referent.type := by
  cases referent <;> rfl

@[simp] theorem TypedExpr.loc_relocate (e : TypedExpr) : (e.relocate move).loc = move e.loc := by
  cases e <;> rfl

@[simp] theorem TypedExpr.type_relocate (e : TypedExpr) : (e.relocate move).type = e.type := by
  cases e with
  | binding loc path referent => exact referent.type_relocate
  | paren loc inner => exact inner.type_relocate
  | _ => rfl

namespace Scope

theorem findIn_relocate (name : String) (frame : Frame) :
    findIn name (frame.map (Local.relocate move)) = (findIn name frame).map (Local.relocate move) := by
  rw [findIn, findIn, find?_map]
  rfl

theorem frames_relocate (scope : Scope) :
    (scope.relocate move).frames = scope.frames.map (List.map (Local.relocate move)) := rfl

theorem lookup_relocate (scope : Scope) (name : String) :
    (scope.relocate move).lookup name = (scope.lookup name).map (Local.relocate move) := by
  rw [lookup, lookup, frames_relocate, findSome?_map, map_findSome?]
  exact congrArg (List.findSome? · scope.frames) (funext (findIn_relocate name))

theorem visibleNames_relocate (scope : Scope) : (scope.relocate move).visibleNames = scope.visibleNames := by
  rw [visibleNames, visibleNames, frames_relocate, ← map_flatten, map_map]
  rfl

theorem declare_relocate (scope : Scope) (symbol : Local) :
    (scope.relocate move).declare (symbol.relocate move) =
      relocateOutcome move (Scope.relocate move) (scope.declare symbol) := by
  rw [declare, declare]
  have hfind : findIn (symbol.relocate move).name (scope.relocate move).current =
      (findIn symbol.name scope.current).map (Local.relocate move) := findIn_relocate symbol.name scope.current
  rw [hfind]
  cases findIn symbol.name scope.current <;> rfl

end Scope

namespace Context

theorem local?_relocate (scope : Scope) (path : Path) :
    local? (scope.relocate move) path = relocateOutcome move (Option.map (Local.relocate move))
      (local? scope path) := by
  rw [local?, local?, Scope.lookup_relocate]
  cases path.isMissing <;> cases path.isQualified <;> rfl

variable (ctx : Context) (scope : Scope)

theorem contains_relocate (name : String) : (ctx.relocate move).graph.contains name = ctx.graph.contains name :=
  Graph.contains_relocate ctx.graph name

theorem binding_relocate (name : String) (loc : Location) :
    (ctx.relocate move).binding (scope.relocate move) name (move loc) =
      relocateOutcome move (Local.relocate move) (ctx.binding scope name loc) := by
  rw [binding, binding, Scope.lookup_relocate, Scope.visibleNames_relocate, contains_relocate]
  cases scope.lookup name with
  | some symbol => rfl
  | none =>
    refine bind_relocate (Graph.resolve_relocate ctx.graph ctx.moduleName name (some loc)) fun found => ?_
    match found with
    | some (owner, item) => cases item <;> rfl
    | none => cases hmodule : ctx.graph.contains name <;> simp only [Option.map_none] <;> rfl

theorem item_relocate (path : Path) (loc : Location) :
    (ctx.relocate move).item (scope.relocate move) path (move loc) =
      relocateOutcome move (relocateOwned move) (ctx.item scope path loc) := by
  rw [item, item, Scope.visibleNames_relocate, contains_relocate]
  refine bind_relocate (Graph.resolvePath_relocate ctx.graph ctx.moduleName path (some loc)) fun found => ?_
  match found with
  | some owned => rfl
  | none =>
    have hvisible := @Graph.visibleNames_relocate move ctx.graph ctx.moduleName
    simp only [Option.map_none]
    split
    · refine bind_relocate (mismatch_relocate (g := id) (.wrongMeaning path.text .module .value) loc) fun _ => ?_
      exact bind_relocate hvisible fun _ => rfl
    · exact bind_relocate hvisible fun _ => rfl

theorem struct_relocate (path : Path) (loc : Location) :
    (ctx.relocate move).struct path (move loc) =
      relocateOutcome move (StructInfo.relocate move) (ctx.struct path loc) := by
  have hnames : (ctx.relocate move).typeNames = ctx.typeNames := rfl
  rw [struct, struct, hnames]
  split
  · rfl
  · split
    · rfl
    · refine bind_relocate (Graph.resolvePath_relocate ctx.graph ctx.moduleName path (some loc)) fun found => ?_
      match found with
      | none => exact bind_relocate (Graph.visibleNames_relocate ctx.graph ctx.moduleName) fun _ => rfl
      | some (owner, .struct _ name _) => exact Table.get_relocate ctx.registry.structs ⟨owner, name⟩
      | some (_, .opaqueType _ _ _) | some (_, .function _ _ _) | some (_, .builtin _ _) | some (_, .use _ _)
      | some (_, .other _ _) => rfl

theorem fieldType_relocate (loc : Location) (base : Ty) (field : String) :
    (ctx.relocate move).fieldType (move loc) base field = relocateOutcome move id (ctx.fieldType loc base field) := by
  cases base with
  | struct name =>
    refine bind_relocate (Table.get_relocate ctx.registry.structs name) fun info => ?_
    have hfield : (info.relocate move).fieldType? field = info.fieldType? field := rfl
    rw [hfield]
    cases info.fieldType? field <;> rfl
  | _ => rfl

theorem chainType_relocate (loc : Location) (base : Ty) (fields : List String) :
    (ctx.relocate move).chainType (move loc) base fields = relocateOutcome move id (ctx.chainType loc base fields) := by
  have hfields := foldlM_relocate (g := id) (k := id) (@fieldType_relocate move ctx loc) fields base
  rwa [map_id] at hfields

theorem value_relocate (path : Path) (loc : Location) :
    (ctx.relocate move).value (scope.relocate move) path (move loc) =
      relocateOutcome move (Referent.relocate move) (ctx.value scope path loc) := by
  have hsignature : ∀ name : ItemName, ((ctx.relocate move).registry.functions.get name >>= fun signature => do
      if signature.isGeneric then
        refuse (.arityMismatch path.text signature.typeParams.length 0 "type argument") (move loc)
      return Referent.function signature) =
      relocateOutcome move (Referent.relocate move) (ctx.registry.functions.get name >>= fun signature => do
      if signature.isGeneric then
        refuse (.arityMismatch path.text signature.typeParams.length 0 "type argument") loc
      return Referent.function signature) := by
    intro name
    refine bind_relocate (Table.get_relocate ctx.registry.functions name) fun signature => ?_
    have hgeneric : (signature.relocate move).isGeneric = signature.isGeneric := rfl
    rw [hgeneric]
    cases signature.isGeneric <;> rfl
  rw [value, value]
  refine bind_relocate (local?_relocate scope path) fun found => ?_
  cases found with
  | some symbol => rfl
  | none =>
    refine bind_relocate (ctx.item_relocate scope path loc) fun owned => ?_
    match owned with
    | (owner, .function _ header _) => exact hsignature ⟨owner, header.name⟩
    | (owner, .builtin _ header) => exact hsignature ⟨owner, header.name⟩
    | (_, .use _ _) | (_, .struct _ _ _) | (_, .opaqueType _ _ _) | (_, .other _ _) => rfl

/-- A moved call finds the same function. -/
theorem callee_relocate (path : Path) (typeArgs : List TypeExpr) (loc : Location) :
    (ctx.relocate move).callee (scope.relocate move) path (relocateTypes move typeArgs) (move loc) =
      relocateOutcome move (Callee.relocate move) (ctx.callee scope path typeArgs loc) := by
  rw [callee, callee, length_relocateTypes]
  refine bind_relocate (local?_relocate scope path) fun found => ?_
  cases found with
  | some symbol =>
    have htype : (symbol.relocate move).type = symbol.type := rfl
    simp only [Option.map_some, htype]
    cases symbol.type with
    | function params result =>
      exact bind_relocate (expectTypeArgs_relocate path.text 0 typeArgs.length loc) fun _ => rfl
    | _ => rfl
  | none =>
    have htypes := ctx.typeScope.resolveList_relocate fun type (_ : type ∈ typeArgs) =>
      @TypeScope.resolve_relocate move ctx.typeScope type
    refine bind_relocate (ctx.item_relocate scope path loc) fun owned => ?_
    match owned with
    | (owner, .function _ header _) | (owner, .builtin _ header) =>
      refine bind_relocate (Table.get_relocate ctx.registry.functions ⟨owner, header.name⟩) fun signature => ?_
      refine bind_relocate
        (expectTypeArgs_relocate path.text signature.typeParams.length typeArgs.length loc) fun _ => ?_
      refine bind_relocate htypes fun types => ?_
      rw [map_type_relocate]
      rfl
    | (_, .use _ _) | (_, .struct _ _ _) | (_, .opaqueType _ _ _) | (_, .other _ _) => rfl

theorem unaryType_relocate (op : UnaryOp) (operand : Ty) (loc : Location) :
    unaryType op operand (move loc) = relocateOutcome move id (unaryType op operand loc) := by
  cases op with
  | negate =>
    rw [unaryType, unaryType]
    split <;> rfl
  | not => exact bind_relocate (expectType_relocate .logicalNot .bool operand loc) fun _ => rfl
  | reference => rfl
  | dereference => cases operand <;> rfl

theorem binaryType_relocate (op : BinaryOp) (left right : TypedExpr) :
    binaryType op (left.relocate move) (right.relocate move) = relocateOutcome move id (binaryType op left right) := by
  simp only [binaryType, TypedExpr.type_relocate, TypedExpr.loc_relocate]
  split
  · refine bind_relocate (expectType_relocate (.logicalOperand op.spelling) .bool left.type left.loc) fun _ => ?_
    exact bind_relocate (expectType_relocate (.logicalOperand op.spelling) .bool right.type right.loc) fun _ => rfl
  · have hoperands : ∀ result : Ty, (expectType (.operandsDiffer op.spelling) left.type right.type (move right.loc) >>=
        fun _ => pure result) = relocateOutcome move id
          (expectType (.operandsDiffer op.spelling) left.type right.type right.loc >>= fun _ => pure result) :=
      fun result => bind_relocate
        (expectType_relocate (.operandsDiffer op.spelling) left.type right.type right.loc) fun _ => rfl
    split
    · split
      · rfl
      · exact hoperands .bool
    · split
      · rfl
      · exact hoperands _

theorem args_relocate {exprs : List Expr}
    (h : ∀ e ∈ exprs, (ctx.relocate move).expr (scope.relocate move) (e.relocate move) =
      relocateOutcome move (TypedExpr.relocate move) (ctx.expr scope e)) (function : String) (index : Nat)
    (params : List Ty) :
    (ctx.relocate move).args (scope.relocate move) function index params (relocateExprs move exprs) =
      relocateOutcome move (relocateTypedExprs move) (ctx.args scope function index params exprs) := by
  induction exprs generalizing index params with
  | nil => rfl
  | cons e exprs ih =>
    obtain ⟨hfirst, hothers⟩ := forall_mem_cons.1 h
    cases params with
    | nil => rfl
    | cons param params =>
      rw [relocateExprs, args, args]
      refine bind_relocate hfirst fun checked => ?_
      rw [TypedExpr.type_relocate, TypedExpr.loc_relocate]
      refine bind_relocate (expectType_relocate (.argument index function) param checked.type checked.loc) fun _ => ?_
      exact bind_relocate (ih hothers (index + 1) params) fun _ => rfl

theorem exprs_relocate {exprs : List Expr}
    (h : ∀ e ∈ exprs, (ctx.relocate move).expr (scope.relocate move) (e.relocate move) =
      relocateOutcome move (TypedExpr.relocate move) (ctx.expr scope e)) :
    (ctx.relocate move).exprs (scope.relocate move) (relocateExprs move exprs) =
      relocateOutcome move (relocateTypedExprs move) (ctx.exprs scope exprs) :=
  forall_mem_induct exprs h rfl fun _ _ hfirst ih => bind_relocate hfirst fun _ => bind_relocate ih fun _ => rfl

theorem inits_relocate {inits : List (FieldInit Expr)}
    (h : ∀ init ∈ inits, (ctx.relocate move).expr (scope.relocate move) (init.value.relocate move) =
      relocateOutcome move (TypedExpr.relocate move) (ctx.expr scope init.value)) (info : StructInfo)
    (given : List String) :
    (ctx.relocate move).inits (scope.relocate move) (info.relocate move) given (relocateInits move inits) =
      relocateOutcome move (relocateTypedInits move) (ctx.inits scope info given inits) := by
  induction inits generalizing given with
  | nil => rfl
  | cons init inits ih =>
    obtain ⟨hfirst, hothers⟩ := forall_mem_cons.1 h
    have hfield : (info.relocate move).fieldType? init.name = info.fieldType? init.name := rfl
    rw [relocateInits, Context.inits, Context.inits, hfield]
    split
    · rfl
    · cases info.fieldType? init.name with
      | none => rfl
      | some type =>
        refine bind_relocate hfirst fun value => ?_
        rw [TypedExpr.type_relocate, TypedExpr.loc_relocate]
        refine bind_relocate (expectType_relocate (.fieldValue init.name info.name.name) type value.type value.loc)
          fun _ => ?_
        exact bind_relocate (ih hothers (init.name :: given)) fun _ => rfl

/-- An expression is checked whatever the places in it, in its scope and in its program are. -/
theorem expr_relocate (e : Expr) :
    (ctx.relocate move).expr (scope.relocate move) (e.relocate move) =
      relocateOutcome move (TypedExpr.relocate move) (ctx.expr scope e) := by
  induction e using Expr.induct with
  | literal loc value => rfl
  | binding loc path => exact bind_relocate (ctx.value_relocate scope path loc) fun _ => rfl
  | field loc root fields =>
    refine bind_relocate (ctx.binding_relocate scope root loc) fun symbol => ?_
    exact bind_relocate (ctx.chainType_relocate loc symbol.type fields) fun _ => rfl
  | call loc path typeArgs args ih =>
    rw [Expr.relocate, expr, expr, length_relocateExprs]
    refine bind_relocate (ctx.callee_relocate scope path typeArgs loc) fun callee => ?_
    have hparams : (callee.relocate move).params = callee.params := rfl
    rw [hparams]
    split
    · rfl
    · exact bind_relocate (ctx.args_relocate scope ih path.text 1 callee.params) fun _ => rfl
  | init loc path fields ih =>
    rw [Expr.relocate, expr, expr, map_name_relocateInits]
    refine bind_relocate (ctx.struct_relocate path loc) fun info => ?_
    refine bind_relocate (ctx.inits_relocate scope ih info []) fun inits => ?_
    have hnames : (info.relocate move).fieldNames = info.fieldNames := rfl
    rw [hnames]
    dsimp only
    split <;> rfl
  | unary loc op operand ih =>
    refine bind_relocate ih fun operand => ?_
    rw [TypedExpr.type_relocate]
    exact bind_relocate (unaryType_relocate op operand.type loc) fun _ => rfl
  | binary loc op left right ihLeft ihRight =>
    refine bind_relocate ihLeft fun left => ?_
    refine bind_relocate ihRight fun right => ?_
    exact bind_relocate (binaryType_relocate op left right) fun _ => rfl
  | paren loc inner ih => exact bind_relocate ih fun _ => rfl
  | operatorless loc operands ih =>
    rw [Expr.relocate, expr, expr]
    refine bind_relocate (ctx.exprs_relocate scope ih) fun checked => ?_
    rw [relocateTypedExprs_eq_map, length_map]
    split <;> rfl
  | unknown node => rfl

end Context

end Smpl
