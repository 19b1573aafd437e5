import Smpl.Typed.Declaration

namespace Smpl

/-- Where a function body is checked. -/
structure Context where
  registry : Registry
  moduleName : String
  typeNames : List (String × Ty)
  functionName : String
  result : Ty
deriving Repr, Inhabited

namespace Context

def graph (ctx : Context) : Graph :=
  ctx.registry.graph

def typeScope (ctx : Context) : TypeScope :=
  ⟨ctx.graph, ctx.registry.types, ctx.moduleName, ctx.typeNames⟩

/-- The parameter or binding that a path means, if one has its name. -/
def local? (scope : Scope) (path : Path) : Except Failure (Option Local) :=
  if path.isMissing then .error (.defect missingPath)
  else if path.isQualified then .ok none
  else .ok (scope.lookup path.name)

/-- Finds a parameter or binding. -/
def binding (ctx : Context) (scope : Scope) (name : String) (loc : Location) : Except Failure Local :=
  match scope.lookup name with
  | some symbol => return symbol
  | none => do
    match ← ctx.graph.resolve ctx.moduleName name (some loc) with
    | some (_, item) => mismatch (.wrongMeaning name item.meaning .localBinding) loc
    | none =>
      if ctx.graph.contains name then mismatch (.wrongMeaning name .module .localBinding) loc
      else refuse (.undefinedSymbol name (Text.similar name scope.visibleNames) "symbol") loc

/-- Finds the item that a path means where no parameter or binding has its name. -/
def item (ctx : Context) (scope : Scope) (path : Path) (loc : Location) :
    Except Failure (String × Item) := do
  match ← ctx.graph.resolvePath ctx.moduleName path (some loc) with
  | some found => return found
  | none =>
    if !path.isQualified && ctx.graph.contains path.name then
      mismatch (.wrongMeaning path.text .module .value) loc
    let candidates := scope.visibleNames ++ (← ctx.graph.visibleNames ctx.moduleName)
    refuse (.undefinedSymbol path.text (Text.similar path.name candidates) "symbol") loc

/-- Finds the struct that a path means. -/
def struct (ctx : Context) (path : Path) (loc : Location) : Except Failure StructInfo := do
  if path.isMissing then .error (.defect missingPath)
  if !path.isQualified && (primitiveNames ++ ctx.typeNames.map (·.1)).contains path.name then
    mismatch (.notStruct path.text) loc
  match ← ctx.graph.resolvePath ctx.moduleName path (some loc) with
  | none =>
    let visible ← ctx.graph.visibleNames ctx.moduleName
    refuse (.undefinedSymbol path.text (Text.similar path.name visible) "struct") loc
  | some (owner, .struct _ name _) => ctx.registry.structs.get ⟨owner, name⟩
  | some (_, .opaqueType _ _ _) => mismatch (.opaqueInit path.text) loc
  | some (_, item) => mismatch (.wrongMeaning path.text item.meaning .struct) loc

/-- The type of a field of a value. -/
def fieldType (ctx : Context) (loc : Location) (base : Ty) (field : String) : Except Failure Ty :=
  match base with
  | .struct name => do
    let info ← ctx.registry.structs.get name
    match info.fieldType? field with
    | some type => return type
    | none => refuse (.unknownField name.name field info.fieldNames) loc
  | _ => mismatch (.fieldOfNonStruct field base.text) loc

/-- The type at the end of a chain of fields. -/
def chainType (ctx : Context) (loc : Location) (base : Ty) (fields : List String) : Except Failure Ty :=
  fields.foldlM (ctx.fieldType loc) base

/-- What a name without a call stands for. Generic functions have no type of their own. -/
def value (ctx : Context) (scope : Scope) (path : Path) (loc : Location) : Except Failure Referent := do
  match ← local? scope path with
  | some symbol => return .binding symbol
  | none =>
    match ← ctx.item scope path loc with
    | (owner, .function _ header _) | (owner, .builtin _ header) =>
      let signature ← ctx.registry.functions.get ⟨owner, header.name⟩
      if signature.isGeneric then
        refuse (.arityMismatch path.text signature.typeParams.length 0 "type argument") loc
      return .function signature
    | (_, item) => mismatch (.wrongMeaning path.text item.meaning .value) loc

/-- A callee ready for its arguments: what it stands for, its type arguments, and the parameter and
    result types for them. -/
structure Callee where
  target : Referent
  typeArgs : List TypedTypeExpr
  params : List Ty
  result : Ty
deriving Repr, Inhabited

/-- Finds what a call calls. -/
def callee (ctx : Context) (scope : Scope) (path : Path) (typeArgs : List TypeExpr) (loc : Location) :
    Except Failure Callee := do
  match ← local? scope path with
  | some symbol =>
    match symbol.type with
    | .function params result =>
      expectTypeArgs path.text 0 typeArgs.length loc
      return ⟨.binding symbol, [], params, result⟩
    | type => refuse (.typeMismatch (.notFunction path.text) none (some type.text)) loc
  | none =>
    match ← ctx.item scope path loc with
    | (owner, .function _ header _) | (owner, .builtin _ header) =>
      let signature ← ctx.registry.functions.get ⟨owner, header.name⟩
      expectTypeArgs path.text signature.typeParams.length typeArgs.length loc
      let typeArgs ← ctx.typeScope.resolveList typeArgs
      let (params, result) := signature.instantiate (typeArgs.map (·.type))
      return ⟨.function signature, typeArgs, params, result⟩
    | (_, item) => mismatch (.notCallable path.text item.meaning) loc

/-- The type of a prefix operator's result. -/
def unaryType (op : UnaryOp) (operand : Ty) (loc : Location) : Except Failure Ty :=
  match op with
  | .negate =>
    if operand.isNumeric then .ok operand
    else refuse (.typeMismatch .negation (some "int or float") (some operand.text)) loc
  | .not => do
    expectType .logicalNot .bool operand loc
    return .bool
  | .reference => .ok (.reference operand)
  | .dereference =>
    match operand with
    | .reference target => .ok target
    | _ => refuse (.typeMismatch .dereference (some "&T") (some operand.text)) loc

/-- The type of a binary operator's result. -/
def binaryType (op : BinaryOp) (left right : TypedExpr) : Except Failure Ty := do
  if op.isLogical then
    expectType (.logicalOperand op.spelling) .bool left.type left.loc
    expectType (.logicalOperand op.spelling) .bool right.type right.loc
    return .bool
  else if op.isEquality then
    if !left.type.isPrimitive then
      refuse (.typeMismatch (.incomparable op.spelling) none (some left.type.text)) left.loc
    expectType (.operandsDiffer op.spelling) left.type right.type right.loc
    return .bool
  else
    if !left.type.isNumeric then
      refuse (.typeMismatch (.notNumeric op.spelling) (some "int or float") (some left.type.text)) left.loc
    expectType (.operandsDiffer op.spelling) left.type right.type right.loc
    return if op.isRelational then .bool else left.type

mutual

/-- Checks an expression. -/
def expr (ctx : Context) (scope : Scope) : Expr → Except Failure TypedExpr
  | .literal loc value => return .literal loc value
  | .binding loc path => do
    let referent ← ctx.value scope path loc
    return .binding loc path referent
  | .field loc root fields => do
    let symbol ← ctx.binding scope root loc
    let type ← ctx.chainType loc symbol.type fields
    return .field loc symbol fields type
  | .call loc path typeArgs args => do
    let callee ← ctx.callee scope path typeArgs loc
    if args.length ≠ callee.params.length then
      refuse (.arityMismatch path.text callee.params.length args.length "argument") loc
    let args ← ctx.args scope path.text 1 callee.params args
    return .call loc path callee.typeArgs args callee.target callee.result
  | .init loc path fields => do
    let info ← ctx.struct path loc
    let inits ← ctx.inits scope info [] fields
    let missing := info.fieldNames.filter fun name => !(fields.map (·.name)).contains name
    if !missing.isEmpty then refuse (.missingField info.name.name missing) loc
    return .init loc path inits info.name
  | .unary loc op operand => do
    let operand ← ctx.expr scope operand
    let type ← unaryType op operand.type loc
    return .unary loc op operand type
  | .binary loc op left right => do
    let left ← ctx.expr scope left
    let right ← ctx.expr scope right
    let type ← binaryType op left right
    return .binary loc op left right type
  | .paren loc inner => do
    let inner ← ctx.expr scope inner
    return .paren loc inner
  | .operatorless _ operands => do
    let checked ← ctx.exprs scope operands
    .error (.defect (if checked.length = 1 then .unknownUnary else .missingPart "value"))
  | .unknown node => .error (.defect (.unknownExpression node))

def exprs (ctx : Context) (scope : Scope) : List Expr → Except Failure (List TypedExpr)
  | [] => return []
  | expr :: others => do
    let expr ← ctx.expr scope expr
    let others ← ctx.exprs scope others
    return expr :: others

/-- Checks the arguments of a call, counted from `index`, against the parameter types. -/
def args (ctx : Context) (scope : Scope) (function : String) (index : Nat) (params : List Ty) :
    List Expr → Except Failure (List TypedExpr)
  | [] => return []
  | arg :: others =>
    match params with
    | [] => return []
    | param :: params => do
      let arg ← ctx.expr scope arg
      expectType (.argument index function) param arg.type arg.loc
      let others ← ctx.args scope function (index + 1) params others
      return arg :: others

/-- Checks the fields of an initializer, of which those in `given` came before. -/
def inits (ctx : Context) (scope : Scope) (info : StructInfo) (given : List String) :
    List (FieldInit Expr) → Except Failure (List (FieldInit TypedExpr))
  | [] => return []
  | ⟨loc, name, value⟩ :: others => do
    if given.contains name then refuse (.duplicateField info.name.name name) loc
    match info.fieldType? name with
    | none => refuse (.unknownField info.name.name name info.fieldNames) loc
    | some type =>
      let value ← ctx.expr scope value
      expectType (.fieldValue name info.name.name) type value.type value.loc
      let others ← ctx.inits scope info (name :: given) others
      return ⟨loc, name, value⟩ :: others

end

end Context

end Smpl
