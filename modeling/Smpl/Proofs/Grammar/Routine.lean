import Smpl.Parse.Module

namespace Smpl.Parse

open List

variable {α : Type}

/-- What is left up to the end of the file, and whether a struct initializer may stand without its keyword. -/
structure Stand where
  rest : Tokens
  bare : Bool

/-- What a round of a loop comes to: one more of what the loop gathers, or its end with what it has gathered last. -/
inductive Round (α : Type)
  | again (next : α)
  | done (last : List α)

@[simp] def Round.goesOn {α : Type} : Round α → Bool
  | .again _ => true
  | .done _ => false

mutual

/-- The loops of the parser by what they gather. -/
inductive Loop : Type → Type 1
  | elements {α : Type} (closer : Symbol) (element : Routine α) : Loop α
  | names (separator : Symbol) (expected : Expected) : Loop String
  | elifBranches : Loop (Branch Expr Stmt)
  | statements : Loop Stmt
  | items : Loop Item

/-- The parse functions by their results, and the loops in them with their rounds. -/
inductive Routine : Type → Type 1
  | gather {α : Type} (loop : Loop α) : Routine (List α)
  | round {α : Type} (loop : Loop α) : Routine (Round α)
  | bracketed {α : Type} (inner : Routine α) : Routine α
  | symbol (mark : Symbol) (expected : Expected) : Routine Location
  | identifier (expected : Expected) : Routine (String × Location)
  | typeList {α : Type} (element : Routine α) : Routine (List α)
  | path : Routine Path
  | arrowType : Routine (Option TypeExpr)
  | arrayEnd : Routine Nat
  | type : Routine TypeExpr
  | extend (level : Nat) (left : Expr) : Routine (Option Expr)
  | chain (level : Nat) (left : Expr) : Routine Expr
  | tier (level : Nat) : Routine Expr
  | unary : Routine Expr
  | leaf : Routine Expr
  | pathExpr : Routine Expr
  | fieldInit : Routine (FieldInit Expr)
  | initFields : Routine (List (FieldInit Expr))
  | condition : Routine Expr
  | branch (loc : Location) : Routine (Branch Expr Stmt)
  | elseBlock : Routine (Option (Block Stmt))
  | returned : Routine (Option Expr)
  | expressionOrAssign : Routine Stmt
  | statement : Routine Stmt
  | block : Routine (Block Stmt)
  | member (expected : Expected) : Routine (Member TypeExpr)
  | typeParam : Routine String
  | header : Routine (Header TypeExpr)
  | fnAfterBuiltin : Routine Unit
  | item : Routine Item
  | moduleName : Routine (Option String)
  | file : Routine (Option String × List Item)

end

/-- What a parse function does, step by step. -/
inductive Plan (α : Type) : Type 1
  | result (a : α)
  | fault (kind : FaultKind)
  | look (next : Tokens → Plan α)
  | flag (next : Bool → Plan α)
  | advance (next : Plan α)
  | allow (bare : Bool) (next : Plan α)
  | call {β : Type} (routine : Routine β) (next : β → Plan α)

namespace Plan

@[simp] def bind {α β : Type} : Plan α → (α → Plan β) → Plan β
  | result a, f => f a
  | fault kind, _ => fault kind
  | look next, f => look fun ts => (next ts).bind f
  | flag next, f => flag fun bare => (next bare).bind f
  | advance next, f => advance (next.bind f)
  | allow bare next, f => allow bare (next.bind f)
  | call routine next, f => call routine fun b => (next b).bind f

instance : Monad Plan where
  pure := result
  bind := bind

@[simp] theorem pure_eq (a : α) : (pure a : Plan α) = result a := rfl

@[simp] theorem bind_eq {β : Type} (plan : Plan α) (f : α → Plan β) : plan >>= f = plan.bind f := rfl

end Plan

@[simp] def call {α : Type} (routine : Routine α) : Plan α := .call routine .result

/-- Where the next token stands. -/
@[simp] def start : Plan Location := .look fun ts => .result ((ts.head?.map (·.location)).getD default)

@[simp] def skip : Plan Unit := .advance (.result ())

@[simp] def expect (mark : Symbol) (expected : Expected) : Plan Unit :=
  .call (.symbol mark expected) fun _ => .result ()

@[simp] def miss {α : Type} (expected : Expected) : Plan α := .fault (.missing expected)

@[simp] def refuse {α : Type} (expected : Expected) : Plan α := .fault (.unexpected expected)

/-- Calls a function with the flag set, and puts the flag back. -/
@[simp] def withFlag {α : Type} (bare : Bool) (routine : Routine α) : Plan α :=
  .flag fun saved => .allow bare (.call routine fun a => .allow saved (.result a))

abbrev Routine.elements {α : Type} (closer : Symbol) (element : Routine α) : Routine (List α) :=
  .gather (.elements closer element)

abbrev Routine.names (separator : Symbol) (expected : Expected) : Routine (List String) :=
  .gather (.names separator expected)

abbrev Routine.expr : Routine Expr := .tier 5

/-- The steps of each parse function. -/
def Routine.plan : {α : Type} → Routine α → Plan α
  | _, .gather loop => do
    match ← call (.round loop) with
    | .again next => do
      let others ← call (.gather loop)
      pure (next :: others)
    | .done last => pure last
  | _, .bracketed inner => withFlag true inner
  | _, .symbol mark expected => .look fun
    | ⟨.symbol found, _, loc⟩ :: _ => if found = mark then do skip; pure loc else miss expected
    | _ => miss expected
  | _, .identifier expected => .look fun
    | ⟨.identifier name, _, loc⟩ :: _ => do skip; pure (name, loc)
    | _ => miss expected
  | _, .round (.elements closer element) => .look fun ts =>
    if startsWith closer ts then pure (.done [])
    else do
      let next ← call element
      .look fun
        | ⟨.symbol .comma, _, _⟩ :: _ => do skip; pure (.again next)
        | _ => pure (.done [next])
  | _, .round (.names separator expected) => .look fun ts =>
    if startsWith separator ts then do
      skip
      let (name, _) ← call (.identifier expected)
      pure (.again name)
    else pure (.done [])
  | _, .typeList element => .look fun
    | ⟨.symbol .leftParen, _, _⟩ :: ⟨.keyword .type, _, _⟩ :: _ => do
      skip
      skip
      let first ← call element
      let others ← .look fun
        | ⟨.symbol .comma, _, _⟩ :: _ => do skip; call (.elements .rightParen element)
        | _ => pure []
      expect .rightParen .rightParen
      pure (first :: others)
    | _ => pure []
  | _, .path => do
    let (first, _) ← call (.identifier .name)
    let others ← call (.names .colonColon .nameAfterColons)
    pure (Path.ofSegments (first :: others))
  | _, .arrowType => .look fun
    | ⟨.symbol .arrow, _, _⟩ :: _ => do
      skip
      let result ← call .type
      pure (some result)
    | _ => pure none
  | _, .arrayEnd => .look fun
    | ⟨.integer length, _, _⟩ :: _ =>
      if length = 0 then .fault .emptyArray
      else do
        skip
        expect .rightBracket .rightBracket
        pure length
    | _ => miss .arrayLength
  | _, .type => .look fun
    | ⟨.symbol .leftBracket, _, loc⟩ :: _ => do
      skip
      let element ← call .type
      expect .semicolon .arraySemicolon
      let length ← call .arrayEnd
      pure (.array loc element length)
    | ⟨.keyword .fn, _, loc⟩ :: _ => do
      skip
      expect .leftParen .leftParen
      let params ← call (.elements .rightParen .type)
      expect .rightParen .rightParen
      let result ← call .arrowType
      pure (.function loc params result)
    | ⟨.identifier _, _, loc⟩ :: _ => do
      let path ← call .path
      let args ← call (.typeList .type)
      pure (.named loc path args)
    | _ => refuse .type
  | _, .extend level left => .look fun ts =>
    match binaryOp? (5 - level) ts with
    | some (op, _) => do
      skip
      let right ← call (.tier level)
      pure (some (.binary left.loc op left right))
    | none => pure none
  | _, .chain level left => do
    match ← call (.extend level left) with
    | some longer => call (.chain level longer)
    | none => pure left
  | _, .tier 0 => call .unary
  | _, .tier (level + 1) => do
    let left ← call (.tier level)
    call (.chain level left)
  | _, .unary => .look fun
    | ⟨.symbol .and, _, loc⟩ :: _ => do
      skip
      let operand ← call .unary
      pure (.unary loc .reference (.unary (loc.right 1) .reference operand))
    | ⟨.symbol mark, _, loc⟩ :: _ =>
      match UnaryOp.ofSymbol? mark with
      | some op => do
        skip
        let operand ← call .unary
        pure (.unary loc op operand)
      | none => call .leaf
    | _ => call .leaf
  | _, .leaf => .look fun
    | ⟨.integer value, _, loc⟩ :: _ => do skip; pure (.literal loc (.integer value))
    | ⟨.float value, _, loc⟩ :: _ => do skip; pure (.literal loc (.float value))
    | ⟨.string value, _, loc⟩ :: _ => do skip; pure (.literal loc (.string value))
    | ⟨.keyword .trueValue, _, loc⟩ :: _ => do skip; pure (.literal loc (.bool true))
    | ⟨.keyword .falseValue, _, loc⟩ :: _ => do skip; pure (.literal loc (.bool false))
    | ⟨.symbol .leftParen, _, loc⟩ :: _ => do
      skip
      let inner ← call (.bracketed .expr)
      expect .rightParen .rightParen
      pure (.paren loc inner)
    | ⟨.keyword .init, _, loc⟩ :: _ => do
      skip
      let path ← call .path
      let fields ← call .initFields
      pure (.init loc path fields)
    | ⟨.identifier _, _, _⟩ :: _ => call .pathExpr
    | _ => refuse .expression
  | _, .pathExpr => do
    let loc ← start
    let path ← call .path
    .look fun
      | ⟨.symbol .leftParen, _, _⟩ :: _ => do
        let typeArgs ← call (.typeList .type)
        expect .leftParen .callParen
        let args ← call (.bracketed (.elements .rightParen .expr))
        expect .rightParen .rightParen
        pure (.call loc path typeArgs args)
      | ⟨.symbol .leftBrace, _, _⟩ :: _ => .flag fun
        | true => do
          let fields ← call .initFields
          pure (.init loc path fields)
        | false => pure (.binding loc path)
      | ⟨.symbol .dot, _, _⟩ :: _ =>
        if path.isQualified then pure (.binding loc path)
        else do
          let fields ← call (.names .dot .fieldName)
          pure (.field loc path.name fields)
      | _ => pure (.binding loc path)
  | _, .fieldInit => do
    let (name, loc) ← call (.identifier .fieldName)
    expect .colon .colon
    let value ← call .expr
    pure ⟨loc, name, value⟩
  | _, .initFields => do
    expect .leftBrace .initBrace
    let fields ← call (.bracketed (.elements .rightBrace .fieldInit))
    expect .rightBrace .rightBrace
    pure fields
  | _, .condition => withFlag false .expr
  | _, .branch loc => do
    let condition ← call .condition
    let body ← call .block
    pure ⟨loc, condition, body⟩
  | _, .round .elifBranches => .look fun
    | ⟨.keyword .elifBranch, _, loc⟩ :: _ => do
      skip
      let next ← call (.branch loc)
      pure (.again next)
    | _ => pure (.done [])
  | _, .elseBlock => .look fun
    | ⟨.keyword .elseBranch, _, _⟩ :: _ => do
      skip
      let body ← call .block
      pure (some body)
    | _ => pure none
  | _, .returned => .look fun ts =>
    if startsWith .semicolon ts then pure none
    else do
      let value ← call .expr
      pure (some value)
  | _, .expressionOrAssign => do
    let loc ← start
    let value ← call .expr
    .look fun
      | ⟨.symbol .assign, _, _⟩ :: _ =>
        match assignTarget? value with
        | none => refuse .semicolonNotAssign
        | some (target, fields) => do
          skip
          let value ← call .expr
          expect .semicolon .semicolon
          pure (.assign loc target fields value)
      | _ => do
        expect .semicolon .semicolon
        pure (.expression loc value)
  | _, .statement => .look fun
    | [] => refuse .expression
    | ⟨kind, _, loc⟩ :: _ =>
      match kind with
      | .keyword .letBinding => do
        skip
        let (name, _) ← call (.identifier .bindingName)
        expect .colon .colonAndType
        let type ← call .type
        expect .assign .assign
        let value ← call .expr
        expect .semicolon .semicolon
        pure (.letBinding loc name type value)
      | .keyword .ifBranch => do
        skip
        let first ← call (.branch loc)
        let others ← call (.gather .elifBranches)
        let otherwise ← call .elseBlock
        pure (.ifChain loc (first :: others) otherwise)
      | .keyword .whileLoop => do
        skip
        let condition ← call .condition
        let body ← call .block
        pure (.whileLoop loc condition body)
      | .keyword .returnValue => do
        skip
        let value ← call .returned
        expect .semicolon .semicolon
        pure (.returnValue loc value)
      | .keyword .breakLoop => do
        skip
        expect .semicolon .semicolon
        pure (.breakLoop loc)
      | .keyword .continueLoop => do
        skip
        expect .semicolon .semicolon
        pure (.continueLoop loc)
      | .symbol .leftBrace => do
        let body ← call .block
        pure (.block body)
      | _ => call .expressionOrAssign
  | _, .round .statements => .look fun ts =>
    if ts.isEmpty || startsWith .rightBrace ts then pure (.done [])
    else do
      let next ← call .statement
      pure (.again next)
  | _, .block => do
    let loc ← call (.symbol .leftBrace .leftBrace)
    let body ← call (.gather .statements)
    expect .rightBrace .rightBrace
    pure ⟨loc, body⟩
  | _, .member expected => do
    let (name, loc) ← call (.identifier expected)
    expect .colon .colon
    let type ← call .type
    pure ⟨loc, name, type⟩
  | _, .typeParam => do
    let (name, _) ← call (.identifier .typeParamName)
    pure name
  | _, .header => do
    let (name, _) ← call (.identifier .functionName)
    let typeParams ← call (.typeList .typeParam)
    expect .leftParen .leftParen
    let params ← call (.elements .rightParen (.member .paramName))
    expect .rightParen .rightParen
    let result ← call .arrowType
    pure ⟨name, typeParams, params, result⟩
  | _, .fnAfterBuiltin => .look fun
    | ⟨.keyword .fn, _, _⟩ :: _ => skip
    | _ => miss .fnAfterBuiltin
  | _, .item => .look fun
    | ⟨.keyword .use, _, loc⟩ :: _ => do
      skip
      let (name, _) ← call (.identifier .moduleName)
      expect .semicolon .semicolon
      pure (.use loc name)
    | ⟨.keyword .struct, _, loc⟩ :: _ => do
      skip
      let (name, _) ← call (.identifier .structName)
      expect .leftBrace .leftBrace
      let fields ← call (.elements .rightBrace (.member .fieldName))
      expect .rightBrace .rightBrace
      pure (.struct loc name fields)
    | ⟨.keyword .opaqueType, _, loc⟩ :: _ => do
      skip
      let (name, _) ← call (.identifier .opaqueName)
      let typeParams ← call (.typeList .typeParam)
      expect .semicolon .semicolon
      pure (.opaqueType loc name typeParams)
    | ⟨.keyword .fn, _, loc⟩ :: _ => do
      skip
      let header ← call .header
      let body ← call .block
      pure (.function loc header body)
    | ⟨.keyword .builtin, _, loc⟩ :: _ => do
      skip
      let _ ← call .fnAfterBuiltin
      let header ← call .header
      expect .semicolon .semicolon
      pure (.builtin loc header)
    | _ => refuse .item
  | _, .round .items => .look fun ts =>
    if ts.isEmpty then pure (.done [])
    else do
      let next ← call .item
      pure (.again next)
  | _, .moduleName => .look fun
    | ⟨.keyword .mod, _, _⟩ :: _ => do
      skip
      let (name, _) ← call (.identifier .moduleName)
      expect .semicolon .semicolon
      pure (some name)
    | _ => pure none
  | _, .file => do
    let name ← call .moduleName
    let items ← call (.gather .items)
    pure (name, items)

mutual

/-- The rank of a round of the loop. -/
@[simp] def Loop.rank : {α : Type} → Loop α → Nat
  | _, .elements _ element => element.rank + 1
  | _, .statements => 13
  | _, .items => 1
  | _, .names .. | _, .elifBranches => 0

/-- A function may call those of lower rank before it takes a token, and any function after that. -/
@[simp] def Routine.rank : {α : Type} → Routine α → Nat
  | _, .gather loop => loop.rank + 1
  | _, .round loop => loop.rank
  | _, .bracketed inner => inner.rank + 1
  | _, .symbol .. | _, .identifier _ | _, .typeList _ | _, .arrowType | _, .arrayEnd | _, .extend .. => 0
  | _, .elseBlock | _, .fnAfterBuiltin | _, .item | _, .moduleName => 0
  | _, .path | _, .member _ | _, .typeParam | _, .header | _, .fieldInit | _, .initFields => 1
  | _, .chain .. | _, .block => 1
  | _, .type | _, .pathExpr => 2
  | _, .leaf | _, .file => 3
  | _, .unary => 4
  | _, .tier level => level + 5
  | _, .condition | _, .returned | _, .expressionOrAssign => 11
  | _, .branch _ | _, .statement => 12

end

/-- Whether a result comes with a token taken. It does but for the last round of a loop, and the functions that may
    read nothing. -/
@[simp] def Routine.advances : {α : Type} → Routine α → α → Bool
  | _, .round .. => Round.goesOn
  | _, .bracketed inner => inner.advances
  | _, .gather _ | _, .typeList _ | _, .arrowType | _, .elseBlock | _, .returned => fun _ => false
  | _, .chain .. | _, .moduleName | _, .file => fun _ => false
  | _, .extend .. => Option.isSome
  | _, .symbol .. | _, .identifier _ | _, .path | _, .arrayEnd | _, .type | _, .tier _ | _, .unary => fun _ => true
  | _, .leaf | _, .pathExpr | _, .fieldInit | _, .initFields | _, .condition | _, .branch _ => fun _ => true
  | _, .expressionOrAssign | _, .statement | _, .block | _, .member _ | _, .typeParam => fun _ => true
  | _, .header | _, .fnAfterBuiltin | _, .item => fun _ => true

/-- What a plan that has come to some tokens may still do, so that it ends with the flag as it was at its start: `now`
    is the flag, and `moved` tells whether it has taken a token. -/
@[simp] def Plan.Ranked {α : Type} (rank : Nat) (advances : α → Bool) (start : Bool) :
    Plan α → Tokens → Bool → Bool → Prop
  | .result a, _, now, moved => now = start ∧ (advances a = true → moved = true)
  | .fault _, _, _, _ => True
  | .look next, ts, now, moved => (next ts).Ranked rank advances start ts now moved
  | .flag next, ts, now, moved => (next now).Ranked rank advances start ts now moved
  | .advance next, ts, now, _ => ts ≠ [] ∧ next.Ranked rank advances start ts.tail now true
  | .allow bare next, ts, _, moved => next.Ranked rank advances start ts bare moved
  | .call routine next, _, now, moved =>
    (moved = true ∨ routine.rank < rank) ∧
      ∀ b ts, (next b).Ranked rank advances start ts now (moved || routine.advances b)

section Ranked

variable {α : Type} {rank : Nat} {advances : α → Bool} {start now moved : Bool} {ts : Tokens}

@[simp] theorem Plan.ranked_ite {c : Prop} [Decidable c] {yes no : Plan α} :
    (if c then yes else no).Ranked rank advances start ts now moved ↔
      (c → yes.Ranked rank advances start ts now moved) ∧ (¬c → no.Ranked rank advances start ts now moved) := by
  split <;> simp_all

end Ranked

/-- A round of a loop calls functions of a lower rank, or takes a token before it goes on. -/
theorem Loop.ranked_round (loop : Loop α) (ts : Tokens) (bare : Bool) :
    (Routine.round loop).plan.Ranked loop.rank Round.goesOn bare ts bare false := by
  cases loop with
  | elements closer element =>
    simp only [Routine.plan, Plan.Ranked, Plan.ranked_ite]
    refine ⟨fun _ => by simp, fun _ => ⟨.inr (Nat.lt_succ_self _), fun next ts => ?_⟩⟩
    simp only [Plan.bind, Plan.Ranked]
    split <;> simp
  | names separator expected =>
    cases ts with
    | nil => simp [Routine.plan, startsWith]
    | cons => simp [Routine.plan]
  | elifBranches =>
    simp only [Routine.plan, Plan.Ranked]
    split <;> simp
  | statements | items => simp [Routine.plan]

/-- Until it takes a token, each function only calls functions of a lower rank, and it puts back the flag. -/
theorem Routine.ranked (routine : Routine α) (ts : Tokens) (bare : Bool) :
    routine.plan.Ranked routine.rank routine.advances bare ts bare false := by
  cases routine with
  | gather loop =>
    refine ⟨.inr (Nat.lt_succ_self _), fun round _ => ?_⟩
    cases round <;> simp
  | round loop => exact loop.ranked_round ts bare
  | chain =>
    refine ⟨.inr Nat.one_pos, fun longer _ => ?_⟩
    cases longer <;> simp
  | tier level => cases level <;> simp [plan]
  | extend level =>
    cases ts with
    | nil => simp [plan, binaryOp?]
    | cons =>
      simp only [plan, Plan.Ranked]
      split <;> simp
  | unary =>
    simp only [plan, Plan.Ranked]
    split
    · simp
    · split <;> simp
    · simp
  | typeList =>
    simp only [plan, Plan.Ranked]
    split
    · refine ⟨cons_ne_nil _ _, cons_ne_nil _ _, .inl rfl, fun _ _ => ?_⟩
      simp only [Plan.bind_eq, Plan.bind, Plan.Ranked]
      split <;> simp
    · simp
  | pathExpr =>
    refine ⟨.inr (by simp), fun path ts => ?_⟩
    simp only [Plan.bind, Plan.Ranked]
    split
    · simp
    · cases bare <;> simp
    · split <;> simp
    · simp
  | expressionOrAssign =>
    refine ⟨.inr (by simp), fun value ts => ?_⟩
    simp only [Plan.bind, Plan.Ranked]
    split
    · split <;> simp
    · simp
  | statement =>
    simp only [plan, Plan.Ranked]
    split
    · simp
    · split <;> simp
  | symbol | identifier | arrowType | arrayEnd | type | leaf | elseBlock | fnAfterBuiltin | item | moduleName =>
    simp only [plan, Plan.Ranked]
    split <;> simp
  | _ => simp [plan]

/-- The runs of a plan, each with the place it starts at and what it comes to. -/
inductive Plan.Run : {α : Type} → Plan α → Stand → Reading (α × Stand) → Prop
  | result {α : Type} {a : α} {s : Stand} : Run (.result a) s (.ok (a, s))
  | fault {α : Type} {kind : FaultKind} {ts : Tokens} {bare : Bool} :
    Run (.fault kind : Plan α) ⟨ts, bare⟩ (.error ⟨kind, ts⟩)
  | look {α : Type} {next : Tokens → Plan α} {ts : Tokens} {bare : Bool} {x : Reading (α × Stand)} :
    Run (next ts) ⟨ts, bare⟩ x → Run (.look next) ⟨ts, bare⟩ x
  | flag {α : Type} {next : Bool → Plan α} {ts : Tokens} {bare : Bool} {x : Reading (α × Stand)} :
    Run (next bare) ⟨ts, bare⟩ x → Run (.flag next) ⟨ts, bare⟩ x
  | advance {α : Type} {next : Plan α} {ts : Tokens} {bare : Bool} {x : Reading (α × Stand)} :
    Run next ⟨ts.tail, bare⟩ x → Run (.advance next) ⟨ts, bare⟩ x
  | allow {α : Type} {next : Plan α} {ts : Tokens} {bare now : Bool} {x : Reading (α × Stand)} :
    Run next ⟨ts, bare⟩ x → Run (.allow bare next) ⟨ts, now⟩ x
  | call {α β : Type} {routine : Routine β} {next : β → Plan α} {b : β} {s s' : Stand} {x : Reading (α × Stand)} :
    Run routine.plan s (.ok (b, s')) → Run (next b) s' x → Run (.call routine next) s x
  | callFault {α β : Type} {routine : Routine β} {next : β → Plan α} {s : Stand} {fault : ParseFault} :
    Run routine.plan s (.error fault) → Run (.call routine next) s (.error fault)

/-- A plan has one run only. -/
theorem Plan.Run.unique {plan : Plan α} {s : Stand} {x y : Reading (α × Stand)} (hx : plan.Run s x)
    (hy : plan.Run s y) : x = y := by
  induction hx with
  | result | fault =>
    cases hy
    rfl
  | look _ ih | flag _ ih | advance _ ih | allow _ ih =>
    cases hy
    exact ih ‹_›
  | call _ _ ih ihnext =>
    cases hy with
    | call h hnext =>
      cases ih h
      exact ihnext hnext
    | callFault h => cases ih h
  | callFault _ ih =>
    cases hy with
    | call h _ => cases ih h
    | callFault h =>
      cases ih h
      rfl

/-- What a function may come to: a result with the flag as it was, before what is left of the tokens, fewer where it
    advances; or a fault at one of them, or at their end. -/
def Routine.Keeps {α : Type} (routine : Routine α) (s : Stand) : Reading (α × Stand) → Prop
  | .ok (a, s') =>
    s'.bare = s.bare ∧ s'.rest <:+ s.rest ∧ (routine.advances a = true → s'.rest.length < s.rest.length)
  | .error fault => fault.rest <:+ s.rest

/-- A plan ends if its calls do. -/
theorem Plan.Ranked.run {routine : Routine α} {s : Stand}
    (hcall : ∀ {β : Type} (callee : Routine β) (s' : Stand), s'.rest.length < s.rest.length ∨
      s'.rest.length = s.rest.length ∧ callee.rank < routine.rank → ∃ x, callee.plan.Run s' x ∧ callee.Keeps s' x)
    {plan : Plan α} {ts : Tokens} {now moved : Bool}
    (h : plan.Ranked routine.rank routine.advances s.bare ts now moved) (hts : ts <:+ s.rest)
    (hmoved : moved = true → ts.length < s.rest.length) : ∃ x, plan.Run ⟨ts, now⟩ x ∧ routine.Keeps s x := by
  induction plan generalizing ts now moved with
  | result a =>
    obtain ⟨rfl, ha⟩ := h
    exact ⟨_, .result, rfl, hts, fun hadvances => hmoved (ha hadvances)⟩
  | fault => exact ⟨_, .fault, hts⟩
  | look next ih =>
    obtain ⟨x, hrun, hx⟩ := ih _ h hts hmoved
    exact ⟨x, .look hrun, hx⟩
  | flag next ih =>
    obtain ⟨x, hrun, hx⟩ := ih _ h hts hmoved
    exact ⟨x, .flag hrun, hx⟩
  | advance next ih =>
    obtain ⟨hnil, h⟩ := h
    obtain ⟨t, ts, rfl⟩ := exists_cons_of_ne_nil hnil
    obtain ⟨x, hrun, hx⟩ := ih h ((suffix_cons t ts).trans hts) fun _ => hts.length_le
    exact ⟨x, .advance hrun, hx⟩
  | allow bare next ih =>
    obtain ⟨x, hrun, hx⟩ := ih h hts hmoved
    exact ⟨x, .allow hrun, hx⟩
  | call callee next ih =>
    obtain ⟨hrank, h⟩ := h
    have hle := hts.length_le
    obtain ⟨y, hy, hkeeps⟩ := hcall callee ⟨ts, now⟩ (by grind)
    cases y with
    | error fault => exact ⟨_, .callFault hy, hkeeps.trans hts⟩
    | ok result =>
      obtain ⟨b, rest, _⟩ := result
      obtain ⟨rfl, hrest, hlt⟩ := hkeeps
      have hle := hrest.length_le
      obtain ⟨x, hrun, hx⟩ := ih b (h b rest) (hrest.trans hts) (by grind)
      exact ⟨x, .call hy hrun, hx⟩

/-- Every function ends, wherever it is called. The induction is on the tokens that are left, and then on the rank. -/
theorem Routine.exists_run (routine : Routine α) (s : Stand) : ∃ x, routine.plan.Run s x ∧ routine.Keeps s x := by
  induction hlength : s.rest.length using Nat.strongRecOn generalizing α routine s with
  | ind length ih =>
    subst hlength
    induction hrank : routine.rank using Nat.strongRecOn generalizing α routine s with
    | ind rank ihrank =>
      subst hrank
      refine (routine.ranked s.rest s.bare).run (fun callee s' hless => ?_) suffix_rfl (by simp)
      obtain hlength | ⟨hlength, hrank⟩ := hless
      · exact ih _ hlength callee s' rfl
      · exact ihrank _ hrank callee s' (by rwa [hlength]) rfl

end Smpl.Parse
