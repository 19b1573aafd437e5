import Smpl.Proofs.Checker.Expr
import Smpl.Proofs.Typing.Fields

namespace Smpl

namespace BinaryOp

variable {op : BinaryOp}

theorem mem_logical_iff : op ∈ [.and, .or] ↔ op.isLogical = true := by
  cases op <;> decide

theorem mem_equality_iff : op ∈ [.equal, .notEqual] ↔ op.isLogical = false ∧ op.isEquality = true := by
  cases op <;> decide

theorem mem_relational_iff :
    op ∈ [.less, .greater, .lessEqual, .greaterEqual] ↔
      op.isLogical = false ∧ op.isEquality = false ∧ op.isRelational = true := by
  cases op <;> decide

theorem mem_arithmetic_iff :
    op ∈ [.add, .subtract, .multiply, .divide, .modulo] ↔
      op.isLogical = false ∧ op.isEquality = false ∧ op.isRelational = false := by
  cases op <;> decide

end BinaryOp

namespace Context

/-- Checking an expression finds exactly the types that the rules give it. -/
def Agrees (ctx : Context) (scope : Scope) (e : Expr) : Prop :=
  ∀ type, (∃ checked, ctx.expr scope e = .ok checked ∧ checked.type = type) ↔ HasType ctx.site scope.vars e type

variable {ctx : Context} {scope : Scope} {loc : Location}

/-- A unary operator is typed as the rules say if its operand is. -/
theorem unary_agrees {op : UnaryOp} {operand : Expr} (hoperand : ctx.Agrees scope operand) :
    ctx.Agrees scope (.unary loc op operand) := by
  intro type
  simp only [Context.expr, bind_eq_ok_iff, unaryType_eq_ok_iff, pure_eq_ok_iff]
  constructor
  · rintro ⟨_, ⟨part, hpart, result, hresult, rfl⟩, rfl⟩
    have htype := (hoperand part.type).1 ⟨part, hpart, rfl⟩
    cases op with
    | negate =>
      obtain ⟨rfl, hnumeric⟩ := hresult
      exact .negate (Ty.isNumeric_iff.1 hnumeric) htype
    | not =>
      obtain ⟨rfl, hbool⟩ := hresult
      exact .not (hbool ▸ htype)
    | reference =>
      obtain rfl := hresult
      exact .reference htype
    | dereference => exact .dereference (hresult ▸ htype)
  · intro htype
    cases htype with
    | negate hnumeric htype =>
      obtain ⟨part, hpart, rfl⟩ := (hoperand _).2 htype
      exact ⟨_, ⟨part, hpart, _, ⟨rfl, Ty.isNumeric_iff.2 hnumeric⟩, rfl⟩, rfl⟩
    | not htype =>
      obtain ⟨part, hpart, hbool⟩ := (hoperand _).2 htype
      exact ⟨_, ⟨part, hpart, _, ⟨rfl, hbool⟩, rfl⟩, rfl⟩
    | reference htype =>
      obtain ⟨part, hpart, rfl⟩ := (hoperand _).2 htype
      exact ⟨_, ⟨part, hpart, _, rfl, rfl⟩, rfl⟩
    | dereference htype =>
      obtain ⟨part, hpart, hreference⟩ := (hoperand _).2 htype
      exact ⟨_, ⟨part, hpart, _, hreference, rfl⟩, rfl⟩

/-- A binary operator is typed as the rules say if its operands are. -/
theorem binary_agrees {op : BinaryOp} {left right : Expr} (hleft : ctx.Agrees scope left)
    (hright : ctx.Agrees scope right) : ctx.Agrees scope (.binary loc op left right) := by
  intro type
  simp only [Context.expr, bind_eq_ok_iff, binaryType_eq_ok_iff, pure_eq_ok_iff]
  constructor
  · rintro ⟨_, ⟨first, hfirst, second, hsecond, result, hresult, rfl⟩, rfl⟩
    have htype := (hleft first.type).1 ⟨first, hfirst, rfl⟩
    have htype' := (hright second.type).1 ⟨second, hsecond, rfl⟩
    rw [TypedExpr.type]
    cases hlogical : op.isLogical with
    | true =>
      rw [if_pos hlogical] at hresult
      obtain ⟨hbool, hbool', rfl⟩ := hresult
      exact .logical (BinaryOp.mem_logical_iff.2 hlogical) (hbool ▸ htype) (hbool' ▸ htype')
    | false =>
    rw [if_neg (ne_true_of_eq_false hlogical)] at hresult
    cases hequality : op.isEquality with
    | true =>
      rw [if_pos hequality] at hresult
      obtain ⟨hprimitive, hsame, rfl⟩ := hresult
      obtain ⟨primitive, heq, hunit⟩ := Ty.isPrimitive_iff.1 hprimitive
      rw [hsame, heq] at htype'
      exact .equality (BinaryOp.mem_equality_iff.2 ⟨hlogical, hequality⟩) hunit (heq ▸ htype) htype'
    | false =>
    rw [if_neg (ne_true_of_eq_false hequality)] at hresult
    obtain ⟨hnumeric, hsame, rfl⟩ := hresult
    rw [hsame] at htype'
    cases hrelational : op.isRelational with
    | true =>
      exact .relational (BinaryOp.mem_relational_iff.2 ⟨hlogical, hequality, hrelational⟩)
        (Ty.isNumeric_iff.1 hnumeric) htype htype'
    | false =>
      exact .arithmetic (BinaryOp.mem_arithmetic_iff.2 ⟨hlogical, hequality, hrelational⟩)
        (Ty.isNumeric_iff.1 hnumeric) htype htype'
  · intro htype
    cases htype with
    | arithmetic hop hnumeric htype htype' =>
      obtain ⟨first, hfirst, rfl⟩ := (hleft _).2 htype
      obtain ⟨second, hsecond, hsame⟩ := (hright _).2 htype'
      obtain ⟨hlogical, hequality, hrelational⟩ := BinaryOp.mem_arithmetic_iff.1 hop
      refine ⟨_, ⟨first, hfirst, second, hsecond, first.type, ?_, rfl⟩, rfl⟩
      simp [hlogical, hequality, hrelational, hsame, Ty.isNumeric_iff.2 hnumeric]
    | relational hop hnumeric htype htype' =>
      obtain ⟨first, hfirst, rfl⟩ := (hleft _).2 htype
      obtain ⟨second, hsecond, hsame⟩ := (hright _).2 htype'
      obtain ⟨hlogical, hequality, hrelational⟩ := BinaryOp.mem_relational_iff.1 hop
      refine ⟨_, ⟨first, hfirst, second, hsecond, .bool, ?_, rfl⟩, rfl⟩
      simp [hlogical, hequality, hrelational, hsame, Ty.isNumeric_iff.2 hnumeric]
    | equality hop hunit htype htype' =>
      obtain ⟨first, hfirst, heq⟩ := (hleft _).2 htype
      obtain ⟨second, hsecond, heq'⟩ := (hright _).2 htype'
      obtain ⟨hlogical, hequality⟩ := BinaryOp.mem_equality_iff.1 hop
      refine ⟨_, ⟨first, hfirst, second, hsecond, .bool, ?_, rfl⟩, rfl⟩
      simp [hlogical, hequality, heq, heq', Ty.isPrimitive_iff, hunit]
    | logical hop htype htype' =>
      obtain ⟨first, hfirst, hbool⟩ := (hleft _).2 htype
      obtain ⟨second, hsecond, hbool'⟩ := (hright _).2 htype'
      refine ⟨_, ⟨first, hfirst, second, hsecond, .bool, ?_, rfl⟩, rfl⟩
      simp [BinaryOp.mem_logical_iff.1 hop, hbool, hbool']

end Context

end Smpl
