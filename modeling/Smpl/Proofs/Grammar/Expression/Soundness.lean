import Smpl.Proofs.Grammar.Expression

namespace Smpl

theorem BinaryOp.ofSymbol?_eq_some_iff {mark : Symbol} {op : BinaryOp} :
    BinaryOp.ofSymbol? mark = some op ↔ mark = op.symbol := by
  cases mark <;> cases op <;> decide

theorem UnaryOp.ofSymbol?_eq_some_iff {mark : Symbol} {op : UnaryOp} :
    UnaryOp.ofSymbol? mark = some op ↔ mark = op.symbol := by
  cases mark <;> cases op <;> decide

namespace Parse

open Grammar

variable {bare : Bool} {precedence : Nat} {ts rest : Tokens} {operand value : Tokens → Reading (Expr × Tokens)}

/-- A tier takes just its own operators. -/
theorem binaryOp?_eq_some_iff {op : BinaryOp} :
    binaryOp? precedence ts = some (op, rest) ↔
      op.precedence = precedence ∧ ∃ loc, Takes (.symbol op.symbol) loc ts rest := by
  constructor
  · intro h
    unfold binaryOp? at h
    split at h
    · split at h
      · next hop =>
        split at h
        · next hprecedence =>
          cases h
          rw [BinaryOp.ofSymbol?_eq_some_iff] at hop
          subst hop
          exact ⟨hprecedence, _, .mk⟩
        · cases h
      · cases h
    · cases h
  · rintro ⟨hprecedence, loc, htakes⟩
    cases htakes
    have hop : BinaryOp.ofSymbol? op.symbol = some op := BinaryOp.ofSymbol?_eq_some_iff.2 rfl
    simp [binaryOp?, hop, hprecedence]

instance : Productive (Expression bare 7) :=
  ⟨_, [⟨.integer 0, "", default⟩], fun _ => .integer .mk⟩

instance : Productive (Expression bare 1) :=
  .of_forall fun _ _ _ (he : Expression bare 7 _ _ _) => he.lower (by decide) (by decide)

/-- What makes an expression longer, as the expression that it makes. -/
def Extends (bare : Bool) (tier : Nat) (left : Expr) : Rule Expr :=
  fun e ts rest => ∀ start, Expression bare tier left start ts → Expression bare tier e start rest

instance {tier : Nat} {left : Expr} : Productive (Extends bare tier left) := ⟨left, [], fun _ _ hleft => hleft⟩

/-- A run of the loop extends the operators read so far. -/
theorem chain_tracks (hoperand : ∀ ts, Tracks (Expression bare (precedence + 1)) ts (operand ts)) (rounds : Nat)
    (left : Expr) (ts : Tokens) :
      Tracks (Extends bare precedence left) ts (chain operand precedence rounds left ts) := by
  induction rounds generalizing left ts with
  | zero => exact .nothing fun _ _ hleft => hleft
  | succ rounds ih =>
    unfold chain
    split
    · next op rest hop =>
      obtain ⟨hprecedence, loc, htakes⟩ := binaryOp?_eq_some_iff.1 hop
      cases htakes
      refine .mono (.take ((hoperand _).bind fun right _ => ih _ _)) ?_
      rintro _ _ _ ⟨_, hop, right, _, hright, hmore⟩ _ hleft
      exact hmore _ (.binary hprecedence hleft hop hright)
    · exact .nothing fun _ _ hleft => hleft

/-- The tiers of binary operators are read by their rules, each on the next. -/
theorem tiers_tracks (hoperand : ∀ ts, Tracks (Expression bare 6) ts (operand ts)) (budget : Nat) {count : Nat}
    (hcount : count ≤ 5) (ts : Tokens) : Tracks (Expression bare (6 - count)) ts (tiers operand budget count ts) := by
  induction count generalizing ts with
  | zero => exact hoperand ts
  | succ count ih =>
    have htier : 6 - count = 6 - (count + 1) + 1 := by omega
    have hprecedence : 5 - count = 6 - (count + 1) := by omega
    have ih := ih (by omega)
    rw [htier] at ih
    rw [tiers, hprecedence]
    refine .mono ((ih ts).bind fun left _ => chain_tracks ih budget left _) ?_
    rintro _ _ _ ⟨_, _, hleft, hmore⟩
    exact hmore _ (.operand (by omega) hleft)

theorem unary_tracks {leaf : Tokens → Reading (Expr × Tokens)} (hleaf : ∀ ts, Tracks (Expression bare 7) ts (leaf ts))
    (ts : Tokens) : Tracks (Expression bare 6) ts (unary leaf ts) := by
  induction ts using unary.induct with
  | case1 _ loc ts ih =>
    rw [unary]
    refine .mono (.take (ih.bind fun _ _ => .gives)) ?_
    rintro _ _ _ ⟨_, hop, _, _, he, ⟨⟩⟩
    exact .twoReferences hop he
  | case2 mark _ loc ts hmark op hop ih =>
    rw [unary, hop]
    · rw [UnaryOp.ofSymbol?_eq_some_iff] at hop
      subst hop
      refine .mono (.take (ih.bind fun _ _ => .gives)) ?_
      rintro _ _ _ ⟨_, hop, _, _, he, ⟨⟩⟩
      exact .unary hop he
    · exact hmark
  | case3 mark _ loc ts hmark hop =>
    rw [unary, hop]
    · exact (hleaf _).mono fun _ _ _ he => .operand (by decide) he
    · exact hmark
  | case4 ts hand hsymbol =>
    rw [unary]
    · exact (hleaf _).mono fun _ _ _ he => .operand (by decide) he
    · assumption
    · assumption

theorem fieldInit_tracks {rule : Rule Expr} [Productive rule] (hvalue : ∀ ts, Tracks rule ts (value ts)) (ts : Tokens) :
    Tracks (Init rule) ts (fieldInit value ts) := by
  refine .mono (identifier_tracks.bind fun _ _ => symbol_tracks.bind fun _ _ =>
    (hvalue _).bind fun _ _ => .gives) ?_
  rintro _ _ _ ⟨_, _, hname, _, _, hcolon, _, _, ha, ⟨⟩⟩
  exact .mk hname hcolon ha

/-- The fields of a struct initializer in braces. -/
abbrev Inits (rule : Rule Expr) : Rule (List (FieldInit Expr)) :=
  Then (Mark .leftBrace) fun _ => Then (Listed (Init rule)) fun fields => Then (Mark .rightBrace) fun _ => Gives fields

theorem initFields_tracks {rule : Rule Expr} [Productive rule] (hvalue : ∀ ts, Tracks rule ts (value ts)) (budget : Nat)
    (ts : Tokens) : Tracks (Inits rule) ts (initFields value budget ts) :=
  symbol_tracks.bind fun _ _ => (commaList_tracks _ (fieldInit_tracks hvalue) budget _).bind fun _ _ =>
    symbol_tracks.bind fun _ _ => .gives

/-- A field chain that starts with a dot has a name after it. -/
theorem fieldChain_dot_tracks (lexeme : String) (loc : Location) (ts : Tokens) :
    Tracks (fun fields ts rest => fields ≠ [] ∧ Names .dot fields ts rest) (⟨.symbol .dot, lexeme, loc⟩ :: ts)
      (fieldChain (⟨.symbol .dot, lexeme, loc⟩ :: ts)) := by
  rw [readsNames_fieldChain.goOn]
  refine .mono (.take (identifier_tracks.bind fun first _ => (readsNames_fieldChain.tracks _).bind fun names _ =>
    .gives (a := first.1 :: names))) ?_
  rintro _ _ _ ⟨_, hdot, _, _, hname, _, _, hnames, ⟨⟩⟩
  exact ⟨List.cons_ne_nil _ _, .cons hdot hname hnames⟩

/-- A path without modules is one name. -/
theorem takes_of_route {path : Path} {loc : Location} (h : Route (loc, path) ts rest)
    (hbare : path.isQualified = false) :
    Takes (.identifier path.name) loc ts rest := by
  cases h with
  | mk hfirst hnames =>
    cases hnames with
    | nil => exact hfirst
    | cons => simp [Path.ofSegments, Path.isQualified] at hbare

section

variable {bare : Bool} {value : Bool → Tokens → Reading (Expr × Tokens)}
  (hvalue : ∀ ts, Tracks (Expression true 1) ts (value true ts)) (budget : Nat)
include hvalue

/-- What follows a path. -/
theorem afterPath_tracks {path : Path} {loc : Location} {word : Tokens}
    (hroute : Word (fun path => Route (loc, path)) path word) (ts : Tokens) :
    Tracks (Expression bare 7) (word ++ ts) (afterPath value budget bare loc path ts) := by
  have hbinding (ts : Tokens) : Tracks (Expression bare 7) (word ++ ts) (.ok (.binding loc path, ts)) :=
    ⟨word, rfl, fun rest => .binding (hroute rest)⟩
  unfold afterPath
  split
  · refine .mono (.after hroute ((typeList_tracks (typeExpr_tracks budget) budget _).bind fun _ _ =>
      symbol_tracks.bind fun _ _ => (commaList_tracks _ hvalue budget _).bind fun _ _ =>
      symbol_tracks.bind fun _ _ => .gives)) ?_
    rintro _ _ _ ⟨_, hroute, _, _, htypes, _, _, hopen, _, _, hargs, _, _, hclose, ⟨⟩⟩
    exact .call hroute htypes hopen hargs hclose
  · split
    · next hbare =>
      subst hbare
      refine .mono (.after hroute ((initFields_tracks hvalue budget _).bind fun _ _ => .gives)) ?_
      rintro _ _ _ ⟨_, hroute, _, _, ⟨_, _, hopen, _, _, hfields, _, _, hclose, ⟨⟩⟩, ⟨⟩⟩
      exact .bareInit hroute hopen hfields hclose
    · exact hbinding _
  · split
    · exact hbinding _
    · next hbare =>
      have hroot : Word (Takes (.identifier path.name)) loc word :=
        fun rest => takes_of_route (hroute rest) (Bool.eq_false_iff.2 hbare)
      refine .mono (.after hroot ((fieldChain_dot_tracks _ _ _).bind fun _ _ => .gives)) ?_
      rintro _ _ _ ⟨_, hroot, _, _, ⟨hsome, hfields⟩, ⟨⟩⟩
      cases hfields with
      | nil => exact absurd rfl hsome
      | cons hdot hname hnames => exact .field hroot hdot hname hnames
  · exact hbinding _

/-- What has no operator of its own is read by its rule. -/
theorem leaf_tracks (ts : Tokens) : Tracks (Expression bare 7) ts (leaf value budget bare ts) := by
  unfold leaf
  split
  · exact ⟨[_], rfl, fun _ => .integer .mk⟩
  · exact ⟨[_], rfl, fun _ => .float .mk⟩
  · exact ⟨[_], rfl, fun _ => .string .mk⟩
  · exact ⟨[_], rfl, fun _ => .trueValue .mk⟩
  · exact ⟨[_], rfl, fun _ => .falseValue .mk⟩
  · refine .mono (.take ((hvalue _).bind fun _ _ => symbol_tracks.bind fun _ _ => .gives)) ?_
    rintro _ _ _ ⟨_, hopen, _, _, he, _, _, hclose, ⟨⟩⟩
    exact .paren hopen he hclose
  · have hpath (ts : Tokens) : Tracks (fun path ts rest => ∃ loc, Route (loc, path) ts rest) ts (path ts) := by
      refine .mono (identifier_tracks.bind fun _ _ => (readsNames_pathTail.tracks _).bind fun _ _ => .gives) ?_
      rintro _ _ _ ⟨_, _, hfirst, _, _, hnames, ⟨⟩⟩
      exact ⟨_, .mk hfirst hnames⟩
    refine .mono (.take ((hpath _).bind fun _ _ => (initFields_tracks hvalue budget _).bind fun _ _ => .gives)) ?_
    rintro _ _ _ ⟨_, hword, _, _, ⟨_, hroute⟩, _, _, ⟨_, _, hopen, _, _, hfields, _, _, hclose, ⟨⟩⟩, ⟨⟩⟩
    exact .keywordInit hword hroute hopen hfields hclose
  · next name lexeme loc rest =>
    have htracks := path_tracks name lexeme loc rest
    cases hpath : path (⟨.identifier name, lexeme, loc⟩ :: rest) with
    | error fault =>
      rw [hpath] at htracks
      obtain ⟨read, hts, path, more, hmore⟩ := htracks
      exact ⟨read, hts, _, more, fun rest => .binding (hmore rest)⟩
    | ok result =>
      rw [hpath] at htracks
      obtain ⟨word, hts, hword⟩ := htracks
      rw [hts]
      exact afterPath_tracks hvalue budget hword _
  · exact .fault

end

/-- An expression is read by its rule. -/
theorem expr_tracks (budget : Nat) (bare : Bool) (ts : Tokens) :
    Tracks (Expression bare 1) ts (expr budget bare ts) := by
  induction budget generalizing bare ts with
  | zero => exact .fault
  | succ budget ih => exact tiers_tracks (unary_tracks (leaf_tracks (ih true) budget)) budget (by decide) ts

end Parse

end Smpl
