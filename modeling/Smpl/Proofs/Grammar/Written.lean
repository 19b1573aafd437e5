import Smpl.Proofs.Grammar.Reading

namespace Smpl.Grammar

variable {type : TypeExpr} {ts rest : Tokens}

/-- A written type: a path with type arguments, an array of at least one element, or a function type. -/
inductive Written : Rule TypeExpr
  | named {loc : Location} {path : Path} {args : List TypeExpr} {ts t rest : Tokens} :
    Route (loc, path) ts t → TypeList Written args t rest → Written (.named loc path args) ts rest
  | array {loc loc₁ loc₂ loc₃ : Location} {element : TypeExpr} {length : Nat} {ts t₁ t₂ t₃ t₄ rest : Tokens} :
    Takes (.symbol .leftBracket) loc ts t₁ → Written element t₁ t₂ → Takes (.symbol .semicolon) loc₁ t₂ t₃ →
    Takes (.integer length) loc₂ t₃ t₄ → 0 < length → Takes (.symbol .rightBracket) loc₃ t₄ rest →
    Written (.array loc element length) ts rest
  | function {loc loc₁ loc₂ : Location} {params : List TypeExpr} {result : Option TypeExpr}
      {ts t₁ t₂ t₃ t₄ rest : Tokens} :
    Takes (.keyword .fn) loc ts t₁ → Takes (.symbol .leftParen) loc₁ t₁ t₂ → Listed Written params t₂ t₃ →
    Takes (.symbol .rightParen) loc₂ t₃ t₄ → Arrow Written result t₄ rest →
    Written (.function loc params result) ts rest

/-- Where a written type ends: what follows neither extends its path, nor opens type arguments, nor
    adds a result. -/
structure EndsType (rest : Tokens) : Prop where
  path : Parse.startsWith .colonColon rest = false
  args : Parse.startsWith .leftParen rest = false
  result : Parse.startsWith .arrow rest = false

theorem EndsType.of_startsWith {mark : Symbol} (h : Parse.startsWith mark rest = true)
    (hmark : mark ≠ .colonColon ∧ mark ≠ .leftParen ∧ mark ≠ .arrow) : EndsType rest := by
  obtain ⟨hcolons, hparen, harrow⟩ := hmark
  obtain ⟨lexeme, loc, t, rfl⟩ := Parse.startsWith_eq_true_iff.1 h
  exact ⟨decide_eq_false hcolons, decide_eq_false hparen, decide_eq_false harrow⟩

theorem EndsElement.endsType {closer : Symbol} (h : EndsElement closer rest)
    (hcloser : closer ≠ .colonColon ∧ closer ≠ .leftParen ∧ closer ≠ .arrow) : EndsType rest :=
  h.elim (fun hcomma => .of_startsWith hcomma (by decide)) fun hclose => .of_startsWith hclose hcloser

theorem opensTypeList_of_not_startsWith (h : Parse.startsWith .leftParen rest = false) :
    opensTypeList rest = false := by
  unfold opensTypeList
  split
  · cases h
  · rfl

theorem Written.not_startsWith_rightParen (h : Written type ts rest) : Parse.startsWith .rightParen ts = false := by
  cases h with
  | named hroute _ =>
    cases hroute with
    | mk hfirst _ => cases hfirst; rfl
  | array hopen => cases hopen; rfl
  | function hword => cases hword; rfl

end Smpl.Grammar

namespace Smpl.Parse

open Grammar

/-- The length of an array type with the bracket after it. -/
def ArrayEnd : Rule Nat :=
  fun length ts rest =>
    0 < length ∧ ∃ loc loc' t, Takes (.integer length) loc ts t ∧ Takes (.symbol .rightBracket) loc' t rest

instance : Productive ArrayEnd :=
  ⟨1, [⟨.integer 1, "", default⟩, ⟨.symbol .rightBracket, "", default⟩], fun _ => ⟨Nat.one_pos, _, _, _, .mk, .mk⟩⟩

theorem arrayEnd_tracks (ts : Tokens) : Tracks ArrayEnd ts (arrayEnd ts) := by
  unfold arrayEnd
  split
  · split
    · exact .fault
    · next hzero =>
      refine .mono (.take (symbol_tracks.bind fun _ _ => .gives)) ?_
      rintro _ _ _ ⟨_, hlength, _, _, hclose, ⟨⟩⟩
      exact ⟨Nat.pos_of_ne_zero hzero, _, _, _, hlength, hclose⟩
  · exact .fault

instance : Productive Written :=
  ⟨_, [⟨.identifier "", "", default⟩], fun _ => .named (.mk .mk .nil) .none⟩

/-- A type is read by its rule. -/
theorem typeExpr_tracks (budget : Nat) (ts : Tokens) : Tracks Written ts (typeExpr budget ts) := by
  induction budget generalizing ts with
  | zero => exact .fault
  | succ budget ih =>
    unfold typeExpr
    split
    · refine .mono (.take ((ih _).bind fun _ _ => symbol_tracks.bind fun _ _ =>
        (arrayEnd_tracks _).bind fun _ _ => .gives)) ?_
      rintro _ _ _ ⟨_, hopen, _, _, helement, _, _, hsemicolon, _, _, ⟨hpositive, _, _, _, hlength, hclose⟩, ⟨⟩⟩
      exact .array hopen helement hsemicolon hlength hpositive hclose
    · refine .mono (.take (symbol_tracks.bind fun _ _ => (commaList_tracks _ ih budget _).bind fun _ _ =>
        symbol_tracks.bind fun _ _ => (arrowType_tracks ih _).bind fun _ _ => .gives)) ?_
      rintro _ _ _ ⟨_, hword, _, _, hopen, _, _, hparams, _, _, hclose, _, _, hresult, ⟨⟩⟩
      exact .function hword hopen hparams hclose hresult
    · refine .mono ((path_tracks _ _ _ _).bind fun _ _ => (typeList_tracks ih budget _).bind fun _ _ => .gives) ?_
      rintro _ _ _ ⟨_, _, hroute, _, _, hargs, ⟨⟩⟩
      exact .named hroute hargs
    · exact .fault

theorem arrayEnd_comes {bare : Bool} {length : Nat} {loc loc' : Location} {ts t rest : Tokens}
    (hlength : Takes (.integer length) loc ts t) (hpositive : 0 < length)
    (hclose : Takes (.symbol .rightBracket) loc' t rest) : Routine.arrayEnd.Comes bare length ts rest := by
  cases hlength
  refine .look ?_
  dsimp only
  rw [if_neg (Nat.ne_of_gt hpositive)]
  exact .advance (.call (symbol_comes hclose) .result)

/-- What is a type by the rules is read as that type, if nothing that follows continues it. -/
theorem type_comes {bare : Bool} {type : TypeExpr} {ts rest : Tokens} (h : Written type ts rest)
    (hstop : EndsType rest) :
    Routine.type.Comes bare type ts rest := by
  cases h with
  | named hroute hargs =>
    have hpath : Routine.path.Comes bare _ ts _ :=
      path_comes hroute (startsWith_of_typeList hargs (by decide) hstop.path)
    have hlist : (Routine.typeList .type).Comes bare _ _ rest :=
      typeList_comes (fun _ _ _ h => h.2.not_startsWith_rightParen)
        (fun _ _ _ h hend => have := h.1; type_comes h.2 (hend.endsType (by decide))) hargs.smaller
        (opensTypeList_of_not_startsWith hstop.args)
    cases hroute with
    | mk hfirst =>
      cases hfirst
      exact .look (.call hpath (.call hlist .result))
  | array hopen hpart hsemicolon hlength hpositive hclose =>
    cases hopen
    exact .look (.advance (.call (type_comes hpart (.of_startsWith (startsWith_of_takes hsemicolon) (by decide)))
      (.call (symbol_comes hsemicolon) (.call (arrayEnd_comes hlength hpositive hclose) .result))))
  | function hword hopen hparams hclose hresult =>
    have hlist : (Routine.elements .rightParen .type).Comes bare _ _ _ :=
      elements_comes (by decide) (fun _ _ _ h => h.2.not_startsWith_rightParen)
        (fun _ _ _ h hend => have := h.1; type_comes h.2 (hend.endsType (by decide))) hparams.smaller
        (startsWith_of_takes hclose)
    have harrow : Routine.arrowType.Comes bare _ _ rest :=
      arrowType_comes hresult.smaller hstop.result fun _ _ h => have := h.1; type_comes h.2 hstop
    cases hword
    exact .look (.advance (.call (symbol_comes hopen)
      (.call hlist (.call (symbol_comes hclose) (.call harrow .result)))))
termination_by sizeOf type
decreasing_by all_goals (subst_vars; decreasing_tactic)

end Smpl.Parse
