import Smpl.Proofs.Grammar.Keeps
import Smpl.Proofs.Print.Canonical
import Smpl.Proofs.Print.Spellable

namespace Smpl

open List

namespace Grammar

/-- Whatever a rule reads off spellable tokens has a property, and the tokens left over are spellable
    too, as all of them are. -/
abbrev Yields {α : Type} (rule : Rule α) (p : α → Prop) : Prop :=
  Keeps (fun token => token.kind.isSpellable = true) rule p

theorem Takes.yields {kind : TokenKind} : Yields (Takes kind) fun _ => kind.isSpellable = true := by
  intro loc ts rest h hts
  obtain ⟨⟨_, hkind⟩, hrest⟩ := h.keeps hts
  exact ⟨hkind, hrest⟩

theorem Names.yields {separator : Symbol} :
    Yields (Names separator) fun names => ∀ name ∈ names, isName name = true := by
  intro names ts rest h hts
  obtain ⟨hnames, hrest⟩ := h.keeps hts
  refine ⟨fun name hname => ?_, hrest⟩
  obtain ⟨_, _, hkind⟩ := hnames name hname
  exact hkind

theorem Route.yields : Yields Route fun start => start.2.isSpellable = true := by
  intro start ts rest h hts
  cases h with
  | @mk first names _ _ _ _ hfirst hnames =>
    obtain ⟨hfirst, hts⟩ := hfirst.yields hts
    obtain ⟨hnames, hrest⟩ := hnames.yields hts
    refine ⟨?_, hrest⟩
    have hsegments : (Path.ofSegments (first :: names)).segments = first :: names := by
      simp [Path.ofSegments, Path.segments, getLastD_eq_getLast?, getLast?_eq_some_getLast,
        dropLast_concat_getLast]
    simp only [Path.isSpellable, hsegments, all_cons, all_eq_true, Bool.and_eq_true]
    exact ⟨rfl, hfirst, hnames⟩

/-- A type that is read from spellable tokens can be spelled. -/
theorem Written.yields : Yields Written TypeExpr.Spellable := by
  intro type ts rest h hts
  cases h with
  | named hroute hargs =>
    obtain ⟨hpath, hts⟩ := hroute.yields hts
    obtain ⟨hargs, hrest⟩ := hargs.smaller.keeps (fun _ _ _ ⟨_, h⟩ => h.yields) hts
    exact ⟨.named hpath hargs, hrest⟩
  | array hopen helement hsemicolon hlength hpositive hclose =>
    obtain ⟨helement, hts⟩ := helement.yields (hopen.yields hts).2
    obtain ⟨hrange, hts⟩ := hlength.yields (hsemicolon.yields hts).2
    exact ⟨.array helement (Int.natCast_pos.2 hpositive) (Int.ofNat_le.2 (of_decide_eq_true hrange)),
      (hclose.yields hts).2⟩
  | function hword hopen hparams hclose hresult =>
    obtain ⟨hparams, hts⟩ := hparams.smaller.keeps (fun _ _ _ ⟨_, h⟩ => h.yields) (hopen.yields (hword.yields hts).2).2
    obtain ⟨hresult, hrest⟩ := hresult.smaller.keeps (fun _ _ _ ⟨_, h⟩ => h.yields) (hclose.yields hts).2
    exact ⟨.function hparams hresult, hrest⟩
termination_by type => sizeOf type
decreasing_by all_goals (subst_vars; decreasing_tactic)

end Grammar

/-- An expression that a text of the tier denotes as it stands: spellable, and its canonical text adds
    no parentheses there. -/
structure Expr.Settled (tier : Nat) (e : Expr) : Prop where
  spellable : e.Spellable
  grouped : ∀ needed ≤ tier, e.grouped needed = e

theorem groupedExprs_of_settled {exprs : List Expr} (h : ∀ e ∈ exprs, e.Settled 1) : groupedExprs exprs = exprs :=
  forall_mem_induct exprs h rfl fun _ _ hfirst ih => by rw [groupedExprs, hfirst.grouped 0 (by omega), ih]

theorem groupedInits_of_settled {inits : List (FieldInit Expr)} (h : ∀ init ∈ inits, init.value.Settled 1) :
    groupedInits inits = inits :=
  forall_mem_induct inits h rfl fun _ _ hfirst ih => by rw [groupedInits, hfirst.grouped 0 (by omega), ih]

theorem Expr.Settled.init {loc : Location} {path : Path} {fields : List (FieldInit Expr)} {tier : Nat}
    (hpath : path.isSpellable = true) (h : ∀ init ∈ fields, isName init.name = true ∧ init.value.Settled 1) :
    Expr.Settled tier (.init loc path fields) where
  spellable := .init hpath (fun init hinit => (h init hinit).1) fun init hinit => (h init hinit).2.spellable
  grouped _ _ := by rw [Expr.grouped, groupedInits_of_settled fun init hinit => (h init hinit).2]

namespace Grammar

theorem Init.yields {value : Rule Expr} {p : Expr → Prop} (hvalue : Yields value p) :
    Yields (Init value) fun init => isName init.name = true ∧ p init.value := by
  intro init ts rest h hts
  cases h with
  | mk hname hcolon hpart =>
    obtain ⟨hname, hts⟩ := hname.yields hts
    obtain ⟨hpart, hrest⟩ := hvalue hpart (hcolon.yields hts).2
    exact ⟨⟨hname, hpart⟩, hrest⟩

/-- An expression that is read from spellable tokens can be spelled, and needs no more parentheses. -/
theorem Expression.yields {bare : Bool} {tier : Nat} : Yields (Expression bare tier) (Expr.Settled tier) := by
  intro e ts rest h hts
  cases h with
  | operand _ he =>
    obtain ⟨he, hrest⟩ := he.yields hts
    exact ⟨⟨he.spellable, fun needed hneeded => he.grouped needed (by omega)⟩, hrest⟩
  | binary htier hleft hop hright =>
    subst htier
    obtain ⟨hleft, hts⟩ := hleft.yields hts
    obtain ⟨hright, hrest⟩ := hright.yields (hop.yields hts).2
    refine ⟨⟨.binary hleft.spellable hright.spellable, fun needed hneeded => ?_⟩, hrest⟩
    rw [Expr.grouped, hleft.grouped _ (Nat.le_refl _), hright.grouped _ (Nat.le_refl _)]
    simp [Nat.not_lt.2 hneeded]
  | unary hop he =>
    obtain ⟨he, hrest⟩ := he.yields (hop.yields hts).2
    exact ⟨⟨.unary he.spellable, fun _ _ => by rw [Expr.grouped, he.grouped UnaryOp.precedence (Nat.le_refl _)]⟩, hrest⟩
  | twoReferences hop he =>
    obtain ⟨he, hrest⟩ := he.yields (hop.yields hts).2
    refine ⟨⟨.unary (.unary he.spellable), fun _ _ => ?_⟩, hrest⟩
    rw [Expr.grouped, Expr.grouped, he.grouped UnaryOp.precedence (Nat.le_refl _)]
  | integer htakes =>
    obtain ⟨hrange, hrest⟩ := htakes.yields hts
    have hvalue := of_decide_eq_true hrange
    refine ⟨⟨.literal ?_, fun _ _ => rfl⟩, hrest⟩
    simp only [Literal.isSpellable, Bool.and_eq_true, decide_eq_true_eq]
    omega
  | float htakes =>
    obtain ⟨hvalue, hrest⟩ := htakes.yields hts
    exact ⟨⟨.literal hvalue, fun _ _ => rfl⟩, hrest⟩
  | string htakes | trueValue htakes | falseValue htakes =>
    exact ⟨⟨.literal rfl, fun _ _ => rfl⟩, (htakes.yields hts).2⟩
  | paren hopen he hclose =>
    obtain ⟨he, hts⟩ := he.yields (hopen.yields hts).2
    exact ⟨⟨.paren he.spellable, fun _ _ => by rw [Expr.grouped, he.grouped 0 (by omega)]⟩, (hclose.yields hts).2⟩
  | keywordInit hword hroute hopen hfields hclose =>
    obtain ⟨hpath, hts⟩ := hroute.yields (hword.yields hts).2
    obtain ⟨hfields, hts⟩ := hfields.smallerValues.keeps (Init.yields fun _ _ _ ⟨_, h⟩ => h.yields) (hopen.yields hts).2
    exact ⟨.init hpath hfields, (hclose.yields hts).2⟩
  | bareInit hroute hopen hfields hclose =>
    obtain ⟨hpath, hts⟩ := hroute.yields hts
    obtain ⟨hfields, hts⟩ := hfields.smallerValues.keeps (Init.yields fun _ _ _ ⟨_, h⟩ => h.yields) (hopen.yields hts).2
    exact ⟨.init hpath hfields, (hclose.yields hts).2⟩
  | call hroute htypes hopen hargs hclose =>
    obtain ⟨hpath, hts⟩ := hroute.yields hts
    obtain ⟨htypes, hts⟩ := htypes.keeps Written.yields hts
    obtain ⟨hargs, hts⟩ := hargs.smaller.keeps (fun _ _ _ ⟨_, h⟩ => h.yields) (hopen.yields hts).2
    refine ⟨⟨.call hpath htypes fun e he => (hargs e he).spellable, fun _ _ => ?_⟩, (hclose.yields hts).2⟩
    rw [Expr.grouped, groupedExprs_of_settled hargs]
  | field hroot hdot hname hnames =>
    obtain ⟨hroot, hts⟩ := hroot.yields hts
    obtain ⟨hname, hts⟩ := hname.yields (hdot.yields hts).2
    obtain ⟨hnames, hrest⟩ := hnames.yields hts
    exact ⟨⟨.field hroot (cons_ne_nil _ _) (forall_mem_cons.2 ⟨hname, hnames⟩),
      fun _ _ => rfl⟩, hrest⟩
  | binding hroute =>
    obtain ⟨hpath, hrest⟩ := hroute.yields hts
    exact ⟨⟨.binding hpath, fun _ _ => rfl⟩, hrest⟩
termination_by e => 8 * sizeOf e + (7 - tier)
decreasing_by all_goals (subst_vars; decreasing_tactic)

end Grammar

end Smpl
