import Smpl.Proofs.Grammar.Routine
import Smpl.Proofs.Grammar.Viable

namespace Smpl.Parse

open Grammar

variable {α : Type} {element : Tokens → Reading (α × Tokens)} {rule : Rule α} {mark : Symbol} {expected : Expected}
  {ts rest : Tokens} {loc : Location} {name : String} {names : List String} {path : Path} {size : Nat} {as : List α}
  {type : Tokens → Reading (TypeExpr × Tokens)}

/-- A mark is read by its rule. -/
theorem symbol_tracks : Tracks (Mark mark) ts (symbol mark expected ts) := by
  unfold symbol
  split
  · split
    · next hfound =>
      subst hfound
      exact ⟨[_], rfl, .takes _ _ _⟩
    · exact .fault
  · exact .fault

theorem identifier_tracks : Tracks Named ts (identifier expected ts) := by
  unfold identifier
  split
  · exact ⟨[_], rfl, .takes _ _ _⟩
  · exact .fault

@[simp] theorem startsWith_cons_symbol (mark found : Symbol) (lexeme : String) (loc : Location) (rest : Tokens) :
    startsWith mark (⟨.symbol found, lexeme, loc⟩ :: rest) = decide (found = mark) := rfl

theorem startsWith_of_takes (h : Takes (.symbol mark) loc ts rest) : startsWith mark ts = true := by
  cases h
  simp

theorem not_startsWith_of_takes {other : Symbol} (h : Takes (.symbol mark) loc ts rest) (hne : mark ≠ other) :
    startsWith other ts = false := by
  cases h
  exact decide_eq_false hne

theorem not_startsWith_of_identifier (h : Takes (.identifier name) loc ts rest) : startsWith mark ts = false := by
  cases h
  rfl

/-- The next token is looked at without its place. -/
theorem startsWith_eq_true_iff :
    startsWith mark ts = true ↔ ∃ lexeme loc rest, ts = ⟨.symbol mark, lexeme, loc⟩ :: rest := by
  constructor
  · intro h
    unfold startsWith at h
    split at h
    · have heq : _ = mark := of_decide_eq_true h
      subst heq
      exact ⟨_, _, _, rfl⟩
    · cases h
  · rintro ⟨lexeme, loc, rest, rfl⟩
    simp

/-- The function reads names, each after a separator, up to where none stands. -/
structure ReadsNames (separator : Symbol) (expected : Expected) (read : Tokens → Reading (List String × Tokens)) :
    Prop where
  stop : ∀ {ts : Tokens}, startsWith separator ts = false → read ts = .ok ([], ts)
  goOn : ∀ {lexeme : String} {loc : Location} {ts : Tokens}, read (⟨.symbol separator, lexeme, loc⟩ :: ts) =
    identifier expected ts >>= fun first => read first.2 >>= fun others => .ok (first.1.1 :: others.1, others.2)

theorem readsNames_pathTail : ReadsNames .colonColon .nameAfterColons pathTail where
  stop hts := by
    unfold pathTail
    split <;> simp_all
  goOn {_ _ ts} := by
    rcases ts with _ | ⟨⟨kind, lexeme, loc⟩, ts⟩
    · rfl
    cases kind <;> rfl

theorem readsNames_fieldChain : ReadsNames .dot .fieldName fieldChain where
  stop hts := by
    unfold fieldChain
    split <;> simp_all
  goOn {_ _ ts} := by
    rcases ts with _ | ⟨⟨kind, lexeme, loc⟩, ts⟩
    · rfl
    cases kind <;> rfl

/-- Names with marks between them are read by their rule. -/
theorem ReadsNames.tracks {read : Tokens → Reading (List String × Tokens)} (h : ReadsNames mark expected read)
    (ts : Tokens) : Tracks (Names mark) ts (read ts) := by
  induction hlength : ts.length using Nat.strongRecOn generalizing ts with
  | ind _ ih =>
    subst hlength
    cases hmark : startsWith mark ts with
    | false =>
      rw [h.stop hmark]
      exact .nothing fun _ => .nil
    | true =>
      obtain ⟨_, _, ts, rfl⟩ := startsWith_eq_true_iff.1 hmark
      rw [h.goOn]
      have hname : Tracks Named ts (identifier expected ts) := identifier_tracks
      refine .mono (.take (hname.bind_of_ok fun first rest hfirst =>
        (ih rest.length ?_ rest rfl).bind fun names _ => .gives (a := first.1 :: names))) ?_
      · rw [hfirst] at hname
        obtain ⟨word, rfl, _⟩ := hname
        rw [List.length_cons, List.length_append]
        omega
      · rintro _ _ _ ⟨_, hseparator, _, _, hname, _, _, hnames, ⟨⟩⟩
        exact .cons hseparator hname hnames

/-- A path at a token is located there. -/
theorem path_tracks (name lexeme : String) (loc : Location) (ts : Tokens) :
    Tracks (fun path => Route (loc, path)) (⟨.identifier name, lexeme, loc⟩ :: ts)
      (Parse.path (⟨.identifier name, lexeme, loc⟩ :: ts)) := by
  refine .mono (.take ((readsNames_pathTail.tracks ts).bind fun _ _ => .gives)) ?_
  rintro _ _ _ ⟨_, hfirst, _, _, hnames, ⟨⟩⟩
  exact .mk hfirst hnames

/-- What may follow the first element of a list: nothing, or a comma with further elements. -/
inductive Further (rule : Rule α) (first : α) : Rule (List α)
  | none {rest : Tokens} : Further rule first [first] rest rest
  | some {as : List α} {loc : Location} {ts t rest : Tokens} :
    Takes (.symbol .comma) loc ts t → Listed rule as t rest → Further rule first (first :: as) ts rest

instance {first : α} : Productive (Further rule first) := ⟨_, [], fun _ => .none⟩

theorem Further.elements {first : α} {t : Tokens} (hfirst : rule first ts t) (h : Further rule first as t rest) :
    Elements rule as ts rest := by
  cases h with
  | none => exact .last hfirst
  | some hcomma hothers =>
    cases hothers with
    | none => exact .lastComma hfirst hcomma
    | some hothers => exact .more hfirst hcomma hothers

/-- A list is read by its rule, with a comma after the last element or without one. -/
theorem commaList_tracks (closer : Symbol) (helement : ∀ ts, Tracks rule ts (element ts)) (budget : Nat) (ts : Tokens) :
    Tracks (Listed rule) ts (commaList closer element budget ts) := by
  have hlisted : ∀ as ts rest, Then rule (Further rule) as ts rest → Listed rule as ts rest :=
    fun _ _ _ ⟨_, _, hfirst, hmore⟩ => .some (hmore.elements hfirst)
  induction budget generalizing ts with
  | zero =>
    unfold commaList
    split
    · exact .nothing fun _ => .none
    · exact .mono ((helement ts).bind fun _ _ => .nothing fun _ => .none) hlisted
  | succ budget ih =>
    unfold commaList
    split
    · exact .nothing fun _ => .none
    · refine .mono ((helement ts).bind fun first rest => ?_) hlisted
      dsimp only
      split
      · refine .mono (.take ((ih _).bind fun _ _ => .gives)) ?_
        rintro _ _ _ ⟨_, hcomma, _, _, hothers, ⟨⟩⟩
        exact .some hcomma hothers
      · exact .nothing fun _ => .none

/-- A list of types in parentheses is read by its rule, and may be left out. -/
theorem typeList_tracks (helement : ∀ ts, Tracks rule ts (element ts)) (budget : Nat) (ts : Tokens) :
    Tracks (TypeList rule) ts (typeList element budget ts) := by
  unfold typeList
  split
  · have hlist {loc loc' : Location} : ∀ as ts rest, After (Mark .leftParen) loc (After (Key .type) loc' (Then rule
        fun first => Then (Further rule first) fun as => Then (Mark .rightParen) fun _ => Gives as)) as ts rest →
        TypeList rule as ts rest := by
      rintro _ _ _ ⟨_, hopen, _, hword, _, _, hfirst, _, _, hmore, _, _, hclose, ⟨⟩⟩
      exact .some hopen hword (hmore.elements hfirst) hclose
    refine .mono (.take (.take ((helement _).bind fun first rest => ?_))) hlist
    dsimp only
    split
    · refine .mono (.take ((commaList_tracks _ helement budget _).bind fun others _ =>
        symbol_tracks.bind fun _ _ => .gives (a := first :: others))) ?_
      rintro _ _ _ ⟨_, hcomma, _, _, hothers, _, _, hclose, ⟨⟩⟩
      exact ⟨_, _, .some hcomma hothers, _, _, hclose, .mk⟩
    · refine .mono (symbol_tracks.bind fun _ _ => .gives) ?_
      rintro _ _ _ ⟨_, _, hclose, ⟨⟩⟩
      exact ⟨_, _, .none, _, _, hclose, .mk⟩
  · exact .nothing fun _ => .none

/-- An optional list that starts with a parenthesis hides no other mark. -/
theorem startsWith_of_typeList (hlist : TypeList rule as ts rest) (hmark : mark ≠ .leftParen)
    (hstop : startsWith mark rest = false) : startsWith mark ts = false := by
  cases hlist with
  | none => exact hstop
  | some hparen =>
    cases hparen
    exact decide_eq_false hmark.symm

theorem arrowType_tracks {rule : Rule TypeExpr} (htype : ∀ ts, Tracks rule ts (type ts)) (ts : Tokens) :
    Tracks (Arrow rule) ts (arrowType type ts) := by
  unfold arrowType
  split
  · refine .mono (.take ((htype _).bind fun _ _ => .gives)) ?_
    rintro _ _ _ ⟨_, harrow, _, _, hresult, ⟨⟩⟩
    exact .some harrow hresult
  · exact .nothing fun _ => .none

/-- The function comes to a result, with the flag as it was. -/
abbrev Routine.Comes (routine : Routine α) (bare : Bool) : Rule α :=
  fun a ts rest => routine.plan.Run ⟨ts, bare⟩ (.ok (a, ⟨rest, bare⟩))

section

variable {s : Stand} {x : Reading (α × Stand)} {plan plan' : Plan α} {b bare : Bool} {element : Routine α}

theorem Plan.Run.yes (hb : b = true) (h : plan.Run s x) : (if b then plan else plan').Run s x := by
  rwa [if_pos hb]

theorem Plan.Run.no (hb : b = false) (h : plan.Run s x) : (if b then plan' else plan).Run s x := by
  rwa [if_neg (Bool.eq_false_iff.1 hb)]

theorem Plan.Run.last {routine : Routine α} (h : routine.plan.Run s x) : (Plan.call routine .result).Run s x := by
  cases x with
  | ok => exact .call h .result
  | error => exact .callFault h

theorem symbol_comes (h : Takes (.symbol mark) loc ts rest) :
    (Routine.symbol mark expected).Comes bare loc ts rest := by
  cases h
  refine .look ?_
  dsimp only
  rw [if_pos rfl]
  exact .advance .result

theorem identifier_comes (h : Takes (.identifier name) loc ts rest) :
    (Routine.identifier expected).Comes bare (name, loc) ts rest := by
  cases h
  exact .look (.advance .result)

theorem gather_done {loop : Loop α} (h : (Routine.round loop).Comes bare (.done as) ts rest) :
    (Routine.gather loop).Comes bare as ts rest :=
  .call h .result

/-- A loop goes on with what it has left. -/
theorem gather_again {loop : Loop α} {a : α} {t : Tokens} (h : (Routine.round loop).Comes bare (.again a) ts t)
    (hothers : (Routine.gather loop).Comes bare as t rest) : (Routine.gather loop).Comes bare (a :: as) ts rest :=
  .call h (.call hothers .result)

/-- All names are taken, up to where no mark follows. -/
theorem names_comes (h : Names mark names ts rest) (hstop : startsWith mark rest = false) :
    (Routine.names mark expected).Comes bare names ts rest := by
  induction h with
  | nil => exact gather_done (.look (.no hstop .result))
  | cons hseparator hname _ ih =>
    refine gather_again (.look (.yes (startsWith_of_takes hseparator) ?_)) (ih hstop)
    cases hseparator
    exact .advance (.call (identifier_comes hname) .result)

theorem path_comes (h : Route (loc, path) ts rest) (hstop : startsWith .colonColon rest = false) :
    Routine.path.Comes bare path ts rest := by
  cases h with
  | mk hfirst hnames => exact .call (identifier_comes hfirst) (.call (names_comes hnames hstop) .result)

/-- A comma after an element decides whether the list goes on; nothing else is looked at. -/
theorem elements_comes {closer : Symbol} (hcloser : closer ≠ .comma)
    (hopen : ∀ ⦃a ts rest⦄, rule a ts rest → startsWith closer ts = false)
    (helement : ∀ ⦃a ts rest⦄, rule a ts rest → EndsElement closer rest → element.Comes bare a ts rest)
    (hlist : Listed rule as ts rest) (hclose : startsWith closer rest = true) :
    (Routine.elements closer element).Comes bare as ts rest := by
  have hnone : (Routine.elements closer element).Comes bare [] rest rest :=
    gather_done (.look (.yes hclose .result))
  cases hlist with
  | none => exact hnone
  | some helements =>
    induction helements with
    | last ha =>
      refine gather_done (.look (.no (hopen ha) (.call (helement ha (.inr hclose)) (.look ?_))))
      split
      · simp_all
      · exact .result
    | lastComma ha hcomma =>
      cases hcomma
      exact gather_again (.look (.no (hopen ha) (.call (helement ha (.inl rfl)) (.look (.advance .result))))) hnone
    | more ha hcomma _ ih =>
      cases hcomma
      exact gather_again (.look (.no (hopen ha) (.call (helement ha (.inl rfl)) (.look (.advance .result)))))
        (ih hclose hnone)

/-- A list of types is taken where one is allowed. -/
theorem typeList_comes (hopen : ∀ ⦃a ts rest⦄, rule a ts rest → startsWith .rightParen ts = false)
    (helement : ∀ ⦃a ts rest⦄, rule a ts rest → EndsElement .rightParen rest → element.Comes bare a ts rest)
    (hlist : TypeList rule as ts rest) (hstop : opensTypeList rest = false) :
    (Routine.typeList element).Comes bare as ts rest := by
  refine .look ?_
  cases hlist with
  | none =>
    split
    · cases hstop
    · exact .result
  | some hparen hword helements hclose =>
    have hright := startsWith_of_takes hclose
    cases hparen
    cases hword
    cases helements with
    | last hfirst =>
      refine .advance (.advance (.call (helement hfirst (.inr hright)) (.look ?_)))
      dsimp only
      split
      · cases hright
      · exact .call (symbol_comes hclose) .result
    | lastComma hfirst hcomma =>
      cases hcomma
      exact .advance (.advance (.call (helement hfirst (.inl rfl)) (.look (.advance (.call
        (elements_comes (by decide) hopen helement .none hright) (.call (symbol_comes hclose) .result))))))
    | more hfirst hcomma hothers =>
      cases hcomma
      exact .advance (.advance (.call (helement hfirst (.inl rfl)) (.look (.advance (.call
        (elements_comes (by decide) hopen helement (.some hothers) hright) (.call (symbol_comes hclose) .result))))))

theorem arrowType_comes {rule : Rule TypeExpr} {result : Option TypeExpr} (harrow : Arrow rule result ts rest)
    (hstop : startsWith .arrow rest = false)
    (htype : ∀ ⦃type ts⦄, rule type ts rest → Routine.type.Comes bare type ts rest) :
    Routine.arrowType.Comes bare result ts rest := by
  refine .look ?_
  cases harrow with
  | none =>
    split
    · cases hstop
    · exact .result
  | some htakes hresult =>
    cases htakes
    exact .advance (.call (htype hresult) .result)

end

end Smpl.Parse
