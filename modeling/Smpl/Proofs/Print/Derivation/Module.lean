import Smpl.Proofs.Print.Derivation.Statement

namespace Smpl

open List Grammar

variable {ts rest : Tokens}

theorem sameLists_of_forall₂ {α : Type} {same : α → α → Bool} {as bs : List α}
    (h : Forall₂ (fun a b => same a b = true) as bs) : sameLists same as bs = true := by
  induction h with
  | nil => rfl
  | cons hfirst _ ih => rw [sameLists, hfirst, ih, Bool.and_self]

theorem Member.Spellable.derives {member : Member TypeExpr} (h : member.Spellable)
    (hspelled : Spelled member.kinds ts rest) : ∃ member', Declared member' ts rest ∧ member.same member' = true := by
  simp only [Member.kinds, spelled_cons_iff] at hspelled
  obtain ⟨loc, _, hname, _, _, hcolon, htype⟩ := hspelled
  obtain ⟨type', htype', hsame⟩ := h.type.derives htype
  exact ⟨⟨loc, member.name, type'⟩, .mk hname hcolon htype', by simp [Member.same, hsame]⟩

theorem typeParams_of_spelled {names : List String} (hspelled : Spelled (typeParamsKinds names) ts rest) :
    TypeList ParamName names ts rest := by
  have hparam : ∀ name ∈ names, ∀ ⦃ts rest⦄, Spelled [.identifier name] ts rest →
      ∃ name', ParamName name' ts rest ∧ name = name' := by
    intro name _ ts rest h
    simp only [spelled_cons_iff, spelled_nil_iff] at h
    obtain ⟨_, _, htakes, rfl⟩ := h
    exact ⟨name, .mk htakes, rfl⟩
  obtain ⟨names', hnames', heq⟩ := typeList_of_spelled hparam hspelled
  rw [forall₂_eq_eq_eq] at heq
  exact heq ▸ hnames'

/-- The tokens of a header derive it. -/
theorem Header.Spellable.derives {header : Header TypeExpr} (h : header.Spellable)
    (hspelled : Spelled header.kinds ts rest) : ∃ header', Head header' ts rest ∧ header.same header' = true := by
  simp only [Header.kinds, cons_append, append_assoc, spelled_append_iff, spelled_cons_iff,
    spelled_enclosed_iff] at hspelled
  obtain ⟨_, _, hname, _, htypes, _, ⟨_, _, hopen, _, hparams, _, hclose⟩, hresult⟩ := hspelled
  obtain ⟨params', hparams', hsame⟩ :=
    listed_of_spelled (fun param hparam _ _ => (h.params param hparam).derives) hparams
  obtain ⟨result', hresult', hsame'⟩ :=
    result_of_spelled (fun type htype _ _ => (h.result type htype).derives) hresult
  refine ⟨⟨header.name, header.typeParams, params', result'⟩,
    .mk hname (typeParams_of_spelled htypes) hopen hparams' hclose hresult', ?_⟩
  simp [Header.same, sameLists_of_forall₂ hsame, hsame']

/-- Fields with a comma after each, the last one included. -/
theorem fields_of_spelled {fields : List (Member TypeExpr)} (h : ∀ field ∈ fields, field.Spellable)
    (hspelled : Spelled (fields.flatMap fun field => field.kinds ++ [.symbol .comma]) ts rest) :
    ∃ fields', Listed Declared fields' ts rest ∧ sameLists Member.same fields fields' = true := by
  induction fields generalizing ts with
  | nil =>
    rw [spelled_nil_iff.1 hspelled]
    exact ⟨[], .none, rfl⟩
  | cons field fields ih =>
    simp only [flatMap_cons, append_assoc, spelled_append_iff, spelled_cons_iff,
      spelled_nil_iff] at hspelled
    obtain ⟨_, hfirst, _, ⟨_, _, hcomma, rfl⟩, hothers⟩ := hspelled
    obtain ⟨field', hfield', hsame⟩ := (h field mem_cons_self).derives hfirst
    obtain ⟨fields', hfields', hsame'⟩ := ih (fun f hf => h f (mem_cons_of_mem field hf)) hothers
    refine ⟨field' :: fields', ?_, by rw [sameLists, hsame, hsame', Bool.and_self]⟩
    cases hfields' with
    | none => exact .some (.lastComma hfield' hcomma)
    | some helements => exact .some (.more hfield' hcomma helements)

/-- The tokens of an item derive it with the parentheses that were added. -/
theorem Item.Spellable.derives {item : Item} (h : item.Spellable) (hspelled : Spelled item.kinds ts rest) :
    ∃ item', Declaration item' ts rest ∧ item.grouped.same item' = true := by
  cases h with
  | use hname =>
    simp only [Item.kinds, spelled_cons_iff, spelled_nil_iff] at hspelled
    obtain ⟨_, _, hword, _, _, hname, _, _, hend, rfl⟩ := hspelled
    exact ⟨_, .use hword hname hend, by simp [Item.grouped, Item.same]⟩
  | struct hname hfields =>
    simp only [Item.kinds, cons_append, spelled_append_iff, spelled_cons_iff, spelled_nil_iff] at hspelled
    obtain ⟨_, _, hword, _, _, hname, _, _, hopen, _, hspelled, _, _, hclose, rfl⟩ := hspelled
    obtain ⟨fields', hfields', hsame⟩ := fields_of_spelled hfields hspelled
    exact ⟨_, .struct hword hname hopen hfields' hclose, by simp [Item.grouped, Item.same, hsame]⟩
  | opaqueType hname hparams =>
    simp only [Item.kinds, cons_append, spelled_append_iff, spelled_cons_iff, spelled_nil_iff] at hspelled
    obtain ⟨_, _, hword, _, _, hname, _, htypes, _, _, hend, rfl⟩ := hspelled
    exact ⟨_, .opaqueType hword hname (typeParams_of_spelled htypes) hend, by simp [Item.grouped, Item.same]⟩
  | function hheader hbody =>
    simp only [Item.kinds, cons_append, spelled_append_iff, spelled_cons_iff] at hspelled
    obtain ⟨_, _, hword, _, hhead, hblock⟩ := hspelled
    obtain ⟨header', hheader', hsame⟩ := hheader.derives hhead
    obtain ⟨body', hbody', hsame'⟩ := braced_of_spelled (fun stmt hstmt => (hbody stmt hstmt).derives) hblock
    exact ⟨_, .function hword hheader' hbody', by simp [Item.grouped, Item.same, hsame, hsame']⟩
  | builtin hheader =>
    simp only [Item.kinds, cons_append, spelled_append_iff, spelled_cons_iff, spelled_nil_iff] at hspelled
    obtain ⟨_, _, hword, _, _, hfn, _, hhead, _, _, hend, rfl⟩ := hspelled
    obtain ⟨header', hheader', hsame⟩ := hheader.derives hhead
    exact ⟨_, .builtin hword hfn hheader' hend, by simp [Item.grouped, Item.same, hsame]⟩

theorem moduleName_of_spelled {name : Option String} (h : Spelled (nameKinds name) ts rest) :
    ModuleName name ts rest := by
  cases name with
  | none =>
    rw [spelled_nil_iff.1 h]
    exact .none
  | some name =>
    simp only [nameKinds, spelled_cons_iff, spelled_nil_iff] at h
    obtain ⟨_, _, hword, _, _, hname, _, _, hend, rfl⟩ := h
    exact .some hword hname hend

/-- A stream of the tokens of a module derives it with the parentheses that were added. -/
theorem Module.Spellable.derives {module_ : Module} (h : module_.Spellable) (file : String) {stream : TokenStream}
    (hkinds : stream.tokens.map Token.kind = module_.kinds) :
    ∃ module_', SourceFile file stream module_' ∧ module_.grouped.same module_' = true := by
  have hspelled := spelled_tokens stream.tokens
  rw [hkinds, Module.kinds, spelled_append_iff] at hspelled
  obtain ⟨t, hname, hitems⟩ := hspelled
  obtain ⟨items', hitems', hsame⟩ := many_of_spelled (fun item hitem _ _ => (h.items item hitem).derives) hitems
  refine ⟨_, .mk (moduleName_of_spelled hname) hitems', ?_⟩
  have hlists : sameLists Item.same (module_.items.map Item.grouped) items' = true :=
    sameLists_of_forall₂ (forall₂_map_left_iff.2 hsame)
  simp [Module.same, Module.grouped, hlists]

end Smpl
