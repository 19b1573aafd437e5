import Smpl.Proofs.Grammar.Written

namespace Smpl.Grammar

variable {bare : Bool} {tier : Nat} {e : Expr} {ts rest : Tokens} {loc : Location}

/-- A field with its value in a struct initializer. -/
inductive Init {α : Type} (value : Rule α) : Rule (FieldInit α)
  | mk {name : String} {a : α} {loc loc₁ : Location} {ts t₁ t₂ rest : Tokens} :
    Takes (.identifier name) loc ts t₁ → Takes (.symbol .colon) loc₁ t₁ t₂ → value a t₂ rest →
    Init value ⟨loc, name, a⟩ ts rest

/-- An expression of a tier. Tiers 1 to 5 are those of the binary operators by precedence, 6 has the
    prefix operators, and 7 what has no operator of its own. `bare` tells whether a struct initializer
    may stand without its keyword; inside brackets it always may. -/
inductive Expression : Bool → Nat → Rule Expr
  | operand {bare : Bool} {tier : Nat} {e : Expr} {ts rest : Tokens} :
    tier < 7 → Expression bare (tier + 1) e ts rest → Expression bare tier e ts rest
  | binary {bare : Bool} {tier : Nat} {op : BinaryOp} {left right : Expr} {loc : Location}
      {ts t₁ t₂ rest : Tokens} :
    op.precedence = tier → Expression bare tier left ts t₁ → Takes (.symbol op.symbol) loc t₁ t₂ →
    Expression bare (tier + 1) right t₂ rest → Expression bare tier (.binary left.loc op left right) ts rest
  | unary {bare : Bool} {op : UnaryOp} {e : Expr} {loc : Location} {ts t rest : Tokens} :
    Takes (.symbol op.symbol) loc ts t → Expression bare 6 e t rest → Expression bare 6 (.unary loc op e) ts rest
  | twoReferences {bare : Bool} {e : Expr} {loc : Location} {ts t rest : Tokens} :
    Takes (.symbol .and) loc ts t → Expression bare 6 e t rest →
    Expression bare 6 (.unary loc .reference (.unary (loc.right 1) .reference e)) ts rest
  | integer {bare : Bool} {value : Nat} {loc : Location} {ts rest : Tokens} :
    Takes (.integer value) loc ts rest → Expression bare 7 (.literal loc (.integer value)) ts rest
  | float {bare : Bool} {value : Double} {loc : Location} {ts rest : Tokens} :
    Takes (.float value) loc ts rest → Expression bare 7 (.literal loc (.float value)) ts rest
  | string {bare : Bool} {value : String} {loc : Location} {ts rest : Tokens} :
    Takes (.string value) loc ts rest → Expression bare 7 (.literal loc (.string value)) ts rest
  | trueValue {bare : Bool} {loc : Location} {ts rest : Tokens} :
    Takes (.keyword .trueValue) loc ts rest → Expression bare 7 (.literal loc (.bool true)) ts rest
  | falseValue {bare : Bool} {loc : Location} {ts rest : Tokens} :
    Takes (.keyword .falseValue) loc ts rest → Expression bare 7 (.literal loc (.bool false)) ts rest
  | paren {bare : Bool} {e : Expr} {loc loc₁ : Location} {ts t₁ t₂ rest : Tokens} :
    Takes (.symbol .leftParen) loc ts t₁ → Expression true 1 e t₁ t₂ → Takes (.symbol .rightParen) loc₁ t₂ rest →
    Expression bare 7 (.paren loc e) ts rest
  | keywordInit {bare : Bool} {path : Path} {fields : List (FieldInit Expr)} {loc loc₁ loc₂ loc₃ : Location}
      {ts t₁ t₂ t₃ t₄ rest : Tokens} :
    Takes (.keyword .init) loc ts t₁ → Route (loc₁, path) t₁ t₂ → Takes (.symbol .leftBrace) loc₂ t₂ t₃ →
    Listed (Init (Expression true 1)) fields t₃ t₄ → Takes (.symbol .rightBrace) loc₃ t₄ rest →
    Expression bare 7 (.init loc path fields) ts rest
  | bareInit {path : Path} {fields : List (FieldInit Expr)} {loc loc₁ loc₂ : Location}
      {ts t₁ t₂ t₃ rest : Tokens} :
    Route (loc, path) ts t₁ → Takes (.symbol .leftBrace) loc₁ t₁ t₂ →
    Listed (Init (Expression true 1)) fields t₂ t₃ → Takes (.symbol .rightBrace) loc₂ t₃ rest →
    Expression true 7 (.init loc path fields) ts rest
  | call {bare : Bool} {path : Path} {typeArgs : List TypeExpr} {args : List Expr} {loc loc₁ loc₂ : Location}
      {ts t₁ t₂ t₃ t₄ rest : Tokens} :
    Route (loc, path) ts t₁ → TypeList Written typeArgs t₁ t₂ → Takes (.symbol .leftParen) loc₁ t₂ t₃ →
    Listed (Expression true 1) args t₃ t₄ → Takes (.symbol .rightParen) loc₂ t₄ rest →
    Expression bare 7 (.call loc path typeArgs args) ts rest
  | field {bare : Bool} {root name : String} {names : List String} {loc loc₁ loc₂ : Location}
      {ts t₁ t₂ t₃ rest : Tokens} :
    Takes (.identifier root) loc ts t₁ → Takes (.symbol .dot) loc₁ t₁ t₂ → Takes (.identifier name) loc₂ t₂ t₃ →
    Names .dot names t₃ rest → Expression bare 7 (.field loc root (name :: names)) ts rest
  | binding {bare : Bool} {path : Path} {loc : Location} {ts rest : Tokens} :
    Route (loc, path) ts rest → Expression bare 7 (.binding loc path) ts rest

/-- An expression of a tier stands wherever one of a lower tier may. -/
theorem Expression.lower {tier' : Nat} (h : Expression bare tier e ts rest) (hle : tier' ≤ tier) (hmax : tier ≤ 7) :
    Expression bare tier' e ts rest := by
  induction hle with
  | refl => exact h
  | step hle ih => exact ih (.operand (by omega) h) (by omega)

theorem Listed.smallerValues {value : Rule Expr} {fields : List (FieldInit Expr)}
    (h : Listed (Init value) fields ts rest) :
    Listed (Init fun e ts rest => sizeOf e < sizeOf fields ∧ value e ts rest) fields ts rest := by
  refine h.of_mem fun field hfield ts rest h => ?_
  cases h with
  | mk hname hcolon hvalue =>
    have hsize := List.sizeOf_lt_of_mem hfield
    simp only [FieldInit.mk.sizeOf_spec] at hsize
    exact .mk hname hcolon ⟨by omega, hvalue⟩

/-- The kinds of tokens that an expression may start with. -/
def opensExpression : TokenKind → Bool
  | .identifier _ | .integer _ | .float _ | .string _ => true
  | .keyword word => word = .trueValue || word = .falseValue || word = .init
  | .symbol mark => mark = .leftParen || mark = .and || (UnaryOp.ofSymbol? mark).isSome

theorem Takes.starts {kind : TokenKind} (h : Takes kind loc ts rest) (hkind : opensExpression kind = true) :
    ∃ token t, ts = token :: t ∧ opensExpression token.kind = true ∧ loc = token.location := by
  cases h
  exact ⟨_, _, rfl, hkind, rfl⟩

theorem Route.starts {path : Path} (h : Route (loc, path) ts rest) :
    ∃ token t, ts = token :: t ∧ opensExpression token.kind = true ∧ loc = token.location := by
  cases h with
  | mk hfirst => exact hfirst.starts rfl

/-- An expression starts with a token that may start one, and is located there. -/
theorem Expression.starts (h : Expression bare tier e ts rest) :
    ∃ token t, ts = token :: t ∧ opensExpression token.kind = true ∧ e.loc = token.location := by
  generalize hn : 8 * sizeOf e + (7 - tier) = n
  induction n using Nat.strongRecOn generalizing tier e rest with
  | ind n ih =>
    cases h with
    | operand _ he => exact ih _ (by omega) he rfl
    | binary _ hleft =>
      simp only [Expr.binary.sizeOf_spec] at hn
      exact (ih _ (by omega) hleft rfl :)
    | @unary _ op _ _ _ _ _ hop => exact hop.starts (by cases op <;> rfl)
    | twoReferences h | integer h | float h | string h | trueValue h | falseValue h | paren h | keywordInit h
    | field h => exact h.starts rfl
    | bareInit hroute | call hroute | binding hroute => exact hroute.starts

end Smpl.Grammar
