import Smpl.Proofs.Rust.Lawful
import Smpl.Proofs.Rust.Operators

namespace Smpl.Rust

open List

variable {text : String} {c : Char}

/-- Where a text stands with respect to string literals. -/
inductive Quote
  | outside
  | inside
  | escaped
deriving DecidableEq, Repr

/-- What is open at some point of a text: parentheses, and a string literal. -/
structure Nesting where
  depth : Nat
  quote : Quote
deriving DecidableEq, Repr

/-- Reads a character. A parenthesis that was not opened cannot be closed. -/
def Nesting.step (state : Nesting) (c : Char) : Option Nesting :=
  match state.quote with
  | .outside =>
    if c = '"' then some ⟨state.depth, .inside⟩
    else if c = '(' then some ⟨state.depth + 1, .outside⟩
    else if c = ')' then if state.depth = 0 then none else some ⟨state.depth - 1, .outside⟩
    else some state
  | .inside =>
    if c = '"' then some ⟨state.depth, .outside⟩
    else if c = '\\' then some ⟨state.depth, .escaped⟩
    else some state
  | .escaped => some ⟨state.depth, .inside⟩

/-- A text that closes what it opens, and nothing else. -/
def Balanced (text : List Char) : Prop :=
  text.foldlM Nesting.step ⟨0, .outside⟩ = some ⟨0, .outside⟩

instance (text : List Char) : Decidable (Balanced text) :=
  inferInstanceAs (Decidable (_ = _))

/-- A text that names a place: a path of names and fields, what a reference leads to, or such a text in parentheses. -/
inductive PlaceText : List Char → Prop
  | path {text : List Char} : (∀ c ∈ text, isIdentifierPart c = true ∨ c = '.' ∨ c = '#') → PlaceText text
  | target {text : List Char} : Balanced text → PlaceText ('*' :: text)
  | group {text : List Char} : PlaceText text → PlaceText ('(' :: text ++ [')'])

namespace Nesting

/-- What happens in a text does not depend on the parentheses around it. -/
theorem step_add {state next : Nesting} (h : state.step c = some next) (depth : Nat) :
    step ⟨state.depth + depth, state.quote⟩ c = some ⟨next.depth + depth, next.quote⟩ := by
  obtain ⟨start, quote⟩ := state
  cases quote with
  | outside =>
    simp only [step] at h ⊢
    split at h
    · next hquote =>
      cases h
      rw [if_pos hquote]
    · next hquote =>
      rw [if_neg hquote]
      split at h
      · next hopen =>
        cases h
        rw [if_pos hopen, Nat.add_right_comm]
      · next hopen =>
        rw [if_neg hopen]
        split at h
        · next hclose =>
          obtain ⟨hdepth, hnext⟩ := Option.ite_none_left_eq_some.1 h
          cases hnext
          have hsum : start + depth - 1 = start - 1 + depth := by omega
          rw [if_pos hclose, if_neg (by omega), hsum]
        · next hclose =>
          cases h
          rw [if_neg hclose]
  | inside =>
    simp only [step] at h ⊢
    split at h
    · next hquote =>
      cases h
      rw [if_pos hquote]
    · next hquote =>
      rw [if_neg hquote]
      split at h
      · next hescape =>
        cases h
        rw [if_pos hescape]
      · next hescape =>
        cases h
        rw [if_neg hescape]
  | escaped =>
    cases h
    rfl

theorem foldlM_step_add {state final : Nesting} {text : List Char} (h : text.foldlM step state = some final)
    (depth : Nat) :
    text.foldlM step ⟨state.depth + depth, state.quote⟩ = some ⟨final.depth + depth, final.quote⟩ := by
  induction text generalizing state with
  | nil =>
    cases h
    rfl
  | cons c text ih =>
    rw [foldlM_cons] at h ⊢
    obtain ⟨next, hnext, hrest⟩ := Option.bind_eq_some_iff.1 h
    rw [step_add hnext depth]
    exact ih hrest

end Nesting

namespace Balanced

variable {text text' : List Char}

theorem foldlM_eq (h : Balanced text) (depth : Nat) :
    text.foldlM Nesting.step ⟨depth, .outside⟩ = some ⟨depth, .outside⟩ := by
  have hdepth := Nesting.foldlM_step_add h depth
  rwa [Nat.zero_add] at hdepth

theorem append (h : Balanced text) (h' : Balanced text') : Balanced (text ++ text') := by
  rw [Balanced, foldlM_append, h]
  exact h'

theorem group (h : Balanced text) : Balanced ('(' :: text ++ [')']) := by
  have hopen : Nesting.step ⟨0, .outside⟩ '(' = some ⟨1, .outside⟩ := rfl
  rw [Balanced, cons_append, foldlM_cons, hopen]
  show (text ++ [')']).foldlM Nesting.step ⟨1, .outside⟩ = _
  rw [foldlM_append, h.foldlM_eq 1]
  rfl

/-- A text without parentheses and string literals. -/
theorem of_calm (h : ∀ c ∈ text, c ≠ '"' ∧ c ≠ '(' ∧ c ≠ ')') : Balanced text := by
  unfold Balanced
  induction text with
  | nil => rfl
  | cons c text ih =>
    obtain ⟨⟨hquote, hopen, hclose⟩, hothers⟩ := List.forall_mem_cons.1 h
    have hstep : Nesting.step ⟨0, .outside⟩ c = some ⟨0, .outside⟩ := by
      simp [Nesting.step, hquote, hopen, hclose]
    rw [List.foldlM_cons, hstep]
    exact ih hothers

/-- A text that is balanced before its end has no parentheses around all of it. -/
theorem append_ne_group {rest inner : List Char} (h : Balanced text) (hne : text ≠ []) (hrest : rest ≠ [])
    (hinner : Balanced inner) : text ++ rest ≠ '(' :: inner ++ [')'] := by
  intro hwhole
  obtain ⟨c, first, rfl⟩ := List.exists_cons_of_ne_nil hne
  obtain ⟨rfl, heq⟩ : c = '(' ∧ first ++ rest = inner ++ [')'] := List.cons.inj hwhole
  -- The balanced part ends inside of the parentheses, where at least one is open.
  have hsplit : ∃ last, inner = first ++ last := by
    rcases List.append_eq_append_iff.1 heq with ⟨last, hinside, _⟩ | ⟨last, hfirst, hlast⟩
    · exact ⟨last, hinside⟩
    · cases last with
      | nil => exact ⟨[], by simpa using hfirst.symm⟩
      | cons d last =>
        have hlength := congrArg List.length hlast
        have hpositive := List.length_pos_iff.2 hrest
        simp only [List.length_append, List.length_cons, List.length_nil] at hlength
        omega
  obtain ⟨last, rfl⟩ := hsplit
  rw [Balanced, List.foldlM_append] at hinner
  obtain ⟨middle, hmiddle, _⟩ := Option.bind_eq_some_iff.1 hinner
  have hopened := Nesting.foldlM_step_add hmiddle 1
  have hclosed : first.foldlM Nesting.step ⟨1, .outside⟩ = some ⟨0, .outside⟩ := h
  rw [Nat.zero_add, hclosed] at hopened
  have hdepth : 0 = middle.depth + 1 := congrArg Nesting.depth (Option.some.inj hopened)
  omega

end Balanced

/-- A text that starts with something other than a dereference. -/
def Leads (text : List Char) : Prop :=
  ∃ c rest, text = c :: rest ∧ c ≠ '*'

theorem Leads.append {text : List Char} (h : Leads text) (rest : List Char) : Leads (text ++ rest) := by
  obtain ⟨c, more, rfl, hc⟩ := h
  exact ⟨c, more ++ rest, rfl, hc⟩

namespace PlaceText

variable {text rest : List Char}

theorem balanced (h : PlaceText text) : Balanced text := by
  induction h with
  | path hpath =>
    refine .of_calm fun c hc => ?_
    refine ⟨?_, ?_, ?_⟩ <;> rintro rfl <;> exact absurd (hpath _ hc) (by decide)
  | target h =>
    have hstar : Balanced ['*'] := by decide
    exact hstar.append h
  | group _ ih => exact ih.group

/-- A text is no place if it goes on after a balanced part that dereferences nothing, with something that is in no
    path. -/
theorem not_of_append (h : Balanced text) (hleads : Leads text) {d : Char} (hd : d ∈ rest)
    (hpath : isIdentifierPart d = false ∧ d ≠ '.' ∧ d ≠ '#') : ¬PlaceText (text ++ rest) := by
  intro hplace
  obtain ⟨c, more, rfl, hc⟩ := hleads
  have hmem : d ∈ c :: more ++ rest := List.mem_append_right _ hd
  generalize hwhole : c :: more ++ rest = whole at hplace hmem
  cases hplace with
  | path hall =>
    obtain ⟨hpart, hdot, hraw⟩ := hpath
    rcases hall d hmem with hd | hd | hd
    · rw [hpart] at hd
      cases hd
    · exact hdot hd
    · exact hraw hd
  | target => exact hc (List.cons.inj hwhole).1
  | group hinner => exact h.append_ne_group (List.cons_ne_nil _ _) (List.ne_nil_of_mem hd) hinner.balanced hwhole

theorem not_group (h : ¬PlaceText text) : ¬PlaceText ('(' :: text ++ [')']) := by
  intro hplace
  generalize hwhole : '(' :: text ++ [')'] = whole at hplace
  cases hplace with
  | path hall =>
    rw [← hwhole] at hall
    exact absurd (hall '(' List.mem_cons_self) (by decide)
  | target => cases (List.cons.inj hwhole).1
  | group hinner =>
    have hsame := List.append_cancel_right (List.cons.inj hwhole).2
    exact h (hsame ▸ hinner)

end PlaceText

theorem balanced_append {text' : String} (h : Balanced text.toList) (h' : Balanced text'.toList) :
    Balanced (text ++ text').toList := by
  rw [String.toList_append]
  exact h.append h'

theorem balanced_parens (h : Balanced text.toList) : Balanced ("(" ++ text ++ ")").toList := by
  rw [String.toList_append, String.toList_append]
  exact h.group

theorem balanced_call {callee : String} (hcallee : Balanced callee.toList) (h : Balanced text.toList) :
    Balanced (callee ++ "(" ++ text ++ ")").toList := by
  have htext : callee ++ "(" ++ text ++ ")" = callee ++ ("(" ++ text ++ ")") := by
    simp only [String.append_assoc]
  rw [htext]
  exact balanced_append hcallee (balanced_parens h)

theorem balanced_opened {opening : String} (callee : String) (hopening : opening = callee ++ "(")
    (hcallee : Balanced callee.toList) (h : Balanced text.toList) : Balanced (opening ++ text ++ ")").toList := by
  rw [hopening]
  exact balanced_call hcallee h

theorem balanced_intercalate {separator : String} (hseparator : Balanced separator.toList) {texts : List String}
    (h : ∀ text ∈ texts, Balanced text.toList) : Balanced (separator.intercalate texts).toList := by
  rw [String.toList_intercalate]
  induction texts with
  | nil => rfl
  | cons text texts ih =>
    obtain ⟨hfirst, hothers⟩ := List.forall_mem_cons.1 h
    cases texts with
    | nil => simpa [List.intercalate] using hfirst
    | cons next texts =>
      have hrest := ih hothers
      simp only [List.map_cons, List.intercalate_cons_cons] at hrest ⊢
      exact (hfirst.append hseparator).append hrest

/-- A character that is neither a parenthesis nor a quote, and that starts no dereference. -/
def IsCalm (c : Char) : Prop :=
  c ≠ '"' ∧ c ≠ '(' ∧ c ≠ ')' ∧ c ≠ '*'

instance (c : Char) : Decidable (IsCalm c) :=
  inferInstanceAs (Decidable (_ ∧ _))

/-- A word or number, or several joined by marks. -/
structure Calm (text : List Char) : Prop where
  ne_nil : text ≠ []
  isCalm : ∀ c ∈ text, IsCalm c

namespace Calm

variable {text text' : List Char}

theorem balanced (h : Calm text) : Balanced text := by
  refine .of_calm fun c hc => ?_
  obtain ⟨hquote, hopen, hclose, _⟩ := h.isCalm c hc
  exact ⟨hquote, hopen, hclose⟩

theorem leads (h : Calm text) : Leads text := by
  obtain ⟨c, rest, rfl⟩ := exists_cons_of_ne_nil h.ne_nil
  exact ⟨c, rest, rfl, (h.isCalm c mem_cons_self).2.2.2⟩

theorem append (h : Calm text) (h' : Calm text') : Calm (text ++ text') where
  ne_nil := append_ne_nil_of_left_ne_nil h.ne_nil _
  isCalm := forall_mem_append.2 ⟨h.isCalm, h'.isCalm⟩

end Calm

instance (text : List Char) : Decidable (Calm text) :=
  decidable_of_iff (text ≠ [] ∧ text.all (fun c => decide (IsCalm c)) = true)
    ⟨fun h => ⟨h.1, fun c hc => of_decide_eq_true (all_eq_true.1 h.2 c hc)⟩,
      fun h => ⟨h.ne_nil, all_eq_true.2 fun c hc => decide_eq_true (h.isCalm c hc)⟩⟩

theorem isCalm_of_isIdentifierPart (h : isIdentifierPart c = true) : IsCalm c := by
  refine ⟨?_, ?_, ?_, ?_⟩ <;> rintro rfl <;> exact absurd h (by decide)

theorem isCalm_of_isDigit (h : c.isDigit = true) : IsCalm c :=
  isCalm_of_isIdentifierPart (isIdentifierPart_of_isDigit h)

theorem calm_name {name : String} (h : isName name = true) : Calm name.toList := by
  obtain ⟨c, more, hlist, _, hparts, _⟩ := exists_of_isName h
  rw [hlist]
  exact ⟨cons_ne_nil _ _, fun d hd => isCalm_of_isIdentifierPart (hparts d hd)⟩

theorem calm_identifier {name : String} (h : isName name = true) : Calm (identifier name).toList := by
  have hraw : Calm ['r', '#'] := by decide
  rcases toList_identifier name with htext | htext
  · rw [htext]
    exact calm_name h
  · rw [htext]
    exact hraw.append (calm_name h)

theorem Setting.calm_itemPath (setting : Setting) {name : ItemName} (hmodule : isName name.moduleName = true)
    (hname : isName name.name = true) : Calm (setting.itemPath name).toList := by
  have hself : Calm "self::".toList := by decide
  have hsuper : Calm "super::".toList := by decide
  have hcolons : Calm "::".toList := by decide
  unfold itemPath
  split
  · split
    · rw [String.toList_append]
      exact hself.append (calm_identifier hname)
    · exact calm_identifier hname
  · simp only [String.toList_append]
    exact ((hsuper.append (calm_identifier hmodule)).append hcolons).append (calm_identifier hname)

theorem calm_toDigits (value : Nat) : Calm (Nat.toDigits 10 value) :=
  ⟨Nat.toDigits_ne_nil, fun c hc => isCalm_of_isDigit (Decimal.isDigit_toDigits c hc)⟩

theorem calm_int (value : Int) : Calm (toString value).toList := by
  cases value with
  | ofNat value =>
    have htext : (toString (Int.ofNat value)).toList = Nat.toDigits 10 value := toList_repr_natCast value
    rw [htext]
    exact calm_toDigits value
  | negSucc value =>
    have hsign : Calm ['-'] := by decide
    have htext : (toString (Int.negSucc value)).toList = ['-'] ++ Nat.toDigits 10 (value + 1) := by
      show ("-" ++ Nat.repr (value + 1)).toList = _
      rw [String.toList_append, Nat.toList_repr]
      rfl
    rw [htext]
    exact hsign.append (calm_toDigits (value + 1))

theorem calm_positional (value : Decimal) : Calm value.positional.toList := by
  have hdigits := calm_toDigits value.digits
  have hzeros : ∀ {count : Nat}, ∀ c ∈ List.replicate count '0', IsCalm c :=
    fun c hc => isCalm_of_isDigit (Decimal.isDigit_replicate c hc)
  unfold Decimal.positional
  split
  · rw [String.toList_ofList]
    have hfraction : Calm ['.', '0'] := by decide
    refine ⟨by simp, forall_mem_append.2 ⟨forall_mem_append.2 ⟨hdigits.isCalm, hzeros⟩, hfraction.isCalm⟩⟩
  · rw [String.toList_ofList]
    have hpadded : ∀ {count : Nat}, ∀ c ∈ List.replicate count '0' ++ Nat.toDigits 10 value.digits, IsCalm c :=
      forall_mem_append.2 ⟨hzeros, hdigits.isCalm⟩
    refine ⟨by simp, forall_mem_append.2 ⟨fun c hc => ?_, forall_mem_cons.2 ⟨by decide, fun c hc => ?_⟩⟩⟩
    · exact hpadded c (mem_of_mem_take hc)
    · exact hpadded c (mem_of_mem_drop hc)

theorem calm_double (value : Double) : Calm value.literal.toList := by
  have hsigned : ∀ {text : String}, Calm text.toList →
      Calm ((if value.isNegative then "-" else "") ++ text).toList := by
    intro text htext
    have hsign : Calm ['-'] := by decide
    rw [String.toList_append]
    split
    · exact hsign.append htext
    · exact htext
  unfold Double.literal
  split
  · decide
  · simp only
    split
    · exact hsigned (by decide)
    · split
      · exact hsigned (by decide)
      · exact hsigned (calm_positional _)

theorem calm_integer (value : Int) : Calm (literalText (.integer value)).toList := by
  rw [literalText]
  split
  · rw [String.toList_append]
    exact (calm_int value).append (by decide)
  · exact calm_int value

/-- An escaped character stays in its string literal. -/
theorem foldlM_escape (c : Char) : (escape c).foldlM Nesting.step ⟨0, .inside⟩ = some ⟨0, .inside⟩ := by
  have hstep : ∀ {c : Char}, c ≠ '"' → c ≠ '\\' → Nesting.step ⟨0, .inside⟩ c = some ⟨0, .inside⟩ := by
    intro c hquote hescape
    simp [Nesting.step, hquote, hescape]
  unfold escape
  split
  · rfl
  · rfl
  · rfl
  · rfl
  · rfl
  · rfl
  · next hescape hquote _ _ _ _ =>
    split
    · next hcontrol =>
      have hsmall : c.toNat < 128 := by
        simp only [Bool.or_eq_true, decide_eq_true_eq] at hcontrol
        omega
      have hdigits : ∀ n < 128, (Text.hexadecimal 1 n ++ ['\x7d']).foldlM Nesting.step ⟨0, .inside⟩ =
          some ⟨0, .inside⟩ := by
        decide
      exact hdigits c.toNat hsmall
    · rw [List.foldlM_cons, hstep hquote hescape]
      rfl

theorem balanced_stringLiteral (value : String) : Balanced (stringLiteral value).toList := by
  have hinside : ∀ text : List Char, (text.flatMap escape).foldlM Nesting.step ⟨0, .inside⟩ = some ⟨0, .inside⟩ := by
    intro text
    induction text with
    | nil => rfl
    | cons c text ih =>
      rw [List.flatMap_cons, List.foldlM_append, foldlM_escape]
      exact ih
  have hopen : Nesting.step ⟨0, .outside⟩ '"' = some ⟨0, .inside⟩ := rfl
  rw [stringLiteral, String.toList_ofList, Balanced, cons_append, foldlM_cons, hopen]
  show (value.toList.flatMap escape ++ ['"']).foldlM Nesting.step ⟨0, .inside⟩ = _
  rw [List.foldlM_append, hinside]
  rfl

theorem balanced_literalText (value : Literal) : Balanced (literalText value).toList := by
  cases value with
  | integer value => exact (calm_integer value).balanced
  | float value => exact (calm_double value).balanced
  | bool value => cases value <;> decide
  | string value => exact balanced_opened "String::from" rfl (by decide) (balanced_stringLiteral value)

section

variable {graph : Graph} {spell : ItemName → String}
  (hspell : ∀ name, graph.DeclaresName name → Balanced (spell name).toList)
include hspell

/-- The brackets in the Rust text of a type match. -/
theorem balanced_rustText (type : Ty) (h : type.Lawful graph (isName · = true)) :
    Balanced (type.rustText spell).toList := by
  have hall : ∀ {types : List Ty},
      (∀ type ∈ types, type.Lawful graph (isName · = true) → Balanced (type.rustText spell).toList) →
      (∀ name ∈ Ty.itemsList types, graph.DeclaresName name) →
        (∀ param ∈ Ty.paramsList types, isName param.name = true) →
      ∀ text ∈ Ty.rustTexts spell types, Balanced text.toList := by
    intro types htypes hitems hparams
    rw [Ty.rustTexts_eq_map]
    exact List.forall_mem_map.2 fun type htype =>
      htypes type htype ⟨Ty.forall_mem_itemsList.1 hitems type htype, Ty.forall_mem_paramsList.1 hparams type htype⟩
  obtain ⟨hitems, hparams⟩ := h
  induction type using Ty.induct with
  | primitive type =>
    rw [Ty.rustText]
    cases type with
    | other name => rfl
    | _ => decide
  | struct name => exact hspell name (hitems name (List.mem_singleton_self name))
  | opaqueType name args ih =>
    have hargs := hall (fun type htype h => ih type htype h.items h.params) hitems hparams
    have hfirst : Balanced ((Ty.rustTexts spell args).headD "").toList := by
      cases args with
      | nil => rfl
      | cons arg args => exact hargs _ List.mem_cons_self
    rw [Ty.rustText]
    exact balanced_append (balanced_append (by decide) hfirst) (by decide)
  | param param => exact (calm_identifier (hparams param (List.mem_singleton_self param))).balanced
  | array element length ih =>
    rw [Ty.rustText]
    refine balanced_append
      (balanced_append (balanced_append (balanced_append (by decide) (ih hitems hparams)) ?_) ?_) ?_
    · decide
    · exact (calm_int length).balanced
    · decide
  | function params result ihParams ihResult =>
    obtain ⟨hparamItems, hresultItems⟩ := List.forall_mem_append.1 hitems
    obtain ⟨hparamNames, hresultNames⟩ := List.forall_mem_append.1 hparams
    have hparts := hall (fun type htype h => ihParams type htype h.items h.params) hparamItems hparamNames
    rw [Ty.rustText]
    refine balanced_append (balanced_opened "fn" rfl (by decide) (balanced_intercalate (by decide) hparts)) ?_
    split
    · decide
    · exact balanced_append (by decide) (ihResult hresultItems hresultNames)
  | reference target ih =>
    rw [Ty.rustText]
    exact balanced_append (by decide) (ih hitems hparams)

omit hspell in
theorem balanced_chain {root : String} (hroot : isName root = true) {fields : List String}
    (hfields : ∀ field ∈ fields, isName field = true) : Balanced (chain root fields).toList := by
  refine balanced_intercalate (by decide) (List.forall_mem_map.2 (List.forall_mem_cons.2 ⟨?_, fun field hfield => ?_⟩))
  · exact (calm_identifier hroot).balanced
  · exact (calm_identifier (hfields field hfield)).balanced

omit hspell in
theorem balanced_inits {fields texts : List String} (hfields : ∀ field ∈ fields, isName field = true)
    (htexts : ∀ text ∈ texts, Balanced text.toList) :
    ∀ text ∈ List.zipWith (fun field text => identifier field ++ ": " ++ text) fields texts, Balanced text.toList := by
  induction fields generalizing texts with
  | nil => exact List.forall_mem_nil _
  | cons field fields ih =>
    cases texts with
    | nil => exact List.forall_mem_nil _
    | cons text texts =>
      obtain ⟨hfield, hfields⟩ := List.forall_mem_cons.1 hfields
      obtain ⟨htext, htexts⟩ := List.forall_mem_cons.1 htexts
      refine List.forall_mem_cons.2 ⟨?_, ih hfields htexts⟩
      exact balanced_append (balanced_append (calm_identifier hfield).balanced (by decide)) htext

omit hspell in
theorem toList_cloned_target (pointer : String) :
    (Access.cloned.targetText pointer).toList = '(' :: ('*' :: pointer.toList) ++ [')'] ++ ".clone()".toList := by
  simp [Access.targetText, String.toList_append]

/-- The text of a lawful term is balanced. -/
theorem Term.Lawful.balanced (hnames : ∀ name, graph.DeclaresName name → isName name.name = true) {term : Term}
    (h : term.Lawful graph (isName · = true)) : Balanced (term.print spell).toList := by
  have hall : ∀ {terms : List Term}, (∀ term ∈ terms, Balanced (term.print spell).toList) →
      ∀ text ∈ printAll spell terms, Balanced text.toList := by
    intro terms hterms
    rw [printAll_eq_map]
    exact List.forall_mem_map.2 hterms
  induction h with
  | literal => exact balanced_literalText _
  | @item name typeArgs hname htypes =>
    rw [print]
    refine balanced_append (hspell name hname) ?_
    split
    · decide
    · refine balanced_append (balanced_append (by decide) ?_) (by decide)
      rw [Ty.rustTexts_eq_map]
      exact balanced_intercalate (by decide)
        (List.forall_mem_map.2 fun type htype => balanced_rustText hspell type (htypes type htype))
  | @path access _ _ _ _ hroot hfields =>
    have hchain := balanced_chain hroot hfields
    cases access with
    | used => exact hchain
    | cloned => exact balanced_append hchain (by decide)
    | borrowed =>
      have hmark : Balanced "&".toList := by decide
      exact balanced_append hmark hchain
  | @target access _ _ _ _ ih =>
    have hstar : Balanced ['*'] := by decide
    cases access with
    | used =>
      have hmark : Balanced "*".toList := by decide
      exact balanced_append hmark ih
    | cloned =>
      rw [print, toList_cloned_target]
      exact (hstar.append ih).group.append (by decide)
    | borrowed =>
      have hmark : Balanced "&*".toList := by decide
      exact balanced_append hmark ih
  | borrow _ ih =>
    rw [print]
    exact balanced_append (by decide) ih
  | @unary op _ _ ih =>
    have hmark : Balanced op.spelling.toList := by cases op <;> decide
    exact balanced_append hmark ih
  | @binary op _ _ _ _ ihLeft ihRight =>
    have hmark : Balanced op.spelling.toList := by cases op <;> decide
    rw [print]
    exact balanced_append (balanced_append (balanced_append (balanced_append ihLeft (by decide)) hmark)
      (by decide)) ihRight
  | group _ ih => exact balanced_parens ih
  | call _ _ ihCallee ihArgs => exact balanced_call ihCallee (balanced_intercalate (by decide) (hall ihArgs))
  | @method _ name _ hname _ _ ihReceiver ihArgs =>
    have hmethod := (calm_name (hnames name hname)).balanced
    refine balanced_call (balanced_append (balanced_append ihReceiver (by decide)) hmethod) ?_
    exact balanced_intercalate (by decide) (hall ihArgs)
  | @construct struct fields values hstruct hfields _ ih =>
    have htexts := balanced_inits hfields (hall ih)
    rw [print]
    refine balanced_append (hspell struct hstruct) ?_
    split
    · decide
    · exact balanced_append (balanced_append (by decide) (balanced_intercalate (by decide) htexts)) (by decide)
  | some _ ih => exact balanced_opened "Some" rfl (by decide) ih
  | none htype =>
    rw [print]
    exact balanced_append (balanced_append (by decide) (balanced_rustText hspell _ htype)) (by decide)

end

end Smpl.Rust
