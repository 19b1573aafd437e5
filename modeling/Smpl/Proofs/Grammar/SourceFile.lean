import Smpl.Proofs.Grammar.Declaration
import Smpl.Proofs.Grammar.Unbounded

namespace Smpl

namespace Grammar

variable {ts rest : Tokens}

/-- The declaration of the module's name, or nothing. -/
inductive ModuleName : Rule (Option String)
  | none {rest : Tokens} : ModuleName none rest rest
  | some {name : String} {loc loc₁ loc₂ : Location} {ts t₁ t₂ rest : Tokens} :
    Takes (.keyword .mod) loc ts t₁ → Takes (.identifier name) loc₁ t₁ t₂ →
    Takes (.symbol .semicolon) loc₂ t₂ rest → ModuleName (some name) ts rest

/-- The declaration of the module's name, if there is one, and then items. -/
abbrev NameAndItems : Rule (Option String × List Item) :=
  Then ModuleName fun name => Then (Many Declaration) fun items => Gives (name, items)

/-- A module: the declaration of its name, if there is one, and then items up to the end of the file. It
    starts where its first token does, or at the end of an empty file. -/
inductive SourceFile (file : String) (stream : TokenStream) : Module → Prop
  | mk {name : Option String} {items : List Item} {t : Tokens} :
    ModuleName name stream.tokens t → Many Declaration items t [] →
    SourceFile file stream
      { loc := (stream.tokens.head?.map (·.location)).getD stream.finish, name := name, items := items, file := file }

/-- No item starts with the word that declares the module's name. -/
theorem Declaration.not_mod {item : Item} (h : Declaration item ts rest) (lexeme : String)
    (loc : Location) (t : Tokens) : ts ≠ ⟨.keyword .mod, lexeme, loc⟩ :: t := by
  rintro rfl
  cases h with
  | use hword | struct hword | opaqueType hword | function hword | builtin hword => cases hword

end Grammar

namespace Parse

open Grammar

theorem moduleName_tracks (ts : Tokens) : Tracks ModuleName ts (moduleName ts) := by
  unfold moduleName
  split
  · refine .mono (.take (identifier_tracks.bind fun _ _ => symbol_tracks.bind fun _ _ => .gives)) ?_
    rintro _ _ _ ⟨_, hword, _, _, hname, _, _, hend, ⟨⟩⟩
    exact .some hword hname hend
  · exact .nothing fun _ => .none

theorem moduleName_comes {name : Option String} (h : ModuleName name ts rest)
    (hstop : ∀ lexeme loc t, rest ≠ ⟨.keyword .mod, lexeme, loc⟩ :: t) :
      Routine.moduleName.Comes true name ts rest := by
  refine .look ?_
  cases h with
  | none =>
    split
    · exact absurd rfl (hstop _ _ _)
    · exact .result
  | some hword hname hend =>
    cases hword
    exact .advance (.call (identifier_comes hname) (.call (symbol_comes hend) .result))

theorem items_comes {items : List Item} (h : Many Declaration items ts rest) (hend : rest = []) :
    (Routine.gather .items).Comes true items ts rest := by
  induction h with
  | nil => exact gather_done (.look (.yes (by simp [hend]) .result))
  | @cons _ _ ts _ _ hfirst _ ih =>
    have hnonempty : ts.isEmpty = false := by
      cases hfirst with
      | use hword | struct hword | opaqueType hword | function hword | builtin hword =>
        cases hword
        rfl
    exact gather_again (.look (.no hnonempty (.call (item_comes hfirst) .result))) (ih hend)

/-- The loop stops only at the end of the tokens: it never has fewer rounds left than tokens. -/
theorem allItems_tracks {budget rounds : Nat} (hle : rounds ≤ budget) (hrounds : ts.length ≤ rounds) :
    Tracks (Many Declaration) ts (allItems (item budget) rounds ts) := by
  induction rounds generalizing ts with
  | zero =>
    obtain rfl := List.eq_nil_of_length_eq_zero (Nat.le_zero.1 hrounds)
    exact .nothing fun _ => .nil
  | succ rounds ih =>
    cases ts with
    | nil => exact .nothing fun _ => .nil
    | cons token ts =>
      rw [allItems_cons]
      refine .mono (.bind_of_ok (item_tracks _ _) fun _ _ hfirst =>
        (ih (Nat.le_of_succ_le hle) ?_).bind fun _ _ => .gives) ?_
      · obtain ⟨_, hlt⟩ := Routine.item.suffix_of_reads true (Nat.le_trans hrounds hle) hfirst
        exact Nat.le_of_lt_succ (Nat.lt_of_lt_of_le (hlt rfl) hrounds)
      · rintro _ _ _ ⟨_, _, hfirst, _, _, hothers, ⟨⟩⟩
        exact .cons hfirst hothers

/-- A file is read by its rule. -/
theorem sourceFile_tracks (ts : Tokens) : Tracks NameAndItems ts (sourceFile ts) :=
  .bind_of_ok (moduleName_tracks ts) fun _ _ hname =>
    have hle := (Routine.moduleName.suffix_of_reads true (Nat.le_refl _) hname).1.length_le
    (allItems_tracks (Nat.le_refl _) hle).bind fun _ _ => .gives

end Parse

open Grammar

/-- Tokens are read as a module exactly if they are that module by the rules. -/
theorem Module.ofTokens_eq_ok_iff {file : String} {stream : TokenStream} {module_ : Module} :
    Module.ofTokens file stream = .ok module_ ↔ SourceFile file stream module_ := by
  constructor
  · intro h
    rw [Module.ofTokens_eq] at h
    obtain ⟨⟨⟨name, items⟩, rest⟩, hread, hok⟩ := bind_eq_ok_iff.1 h
    cases hok
    cases Parse.eq_nil_of_sourceFile hread
    obtain ⟨_, _, hname, _, _, hitems, ⟨⟩⟩ := Sound.of_tracks Parse.sourceFile_tracks hread
    exact .mk hname hitems
  · intro h
    cases h with
    | @mk name items t hname hitems =>
      have hstop : ∀ lexeme loc t', t ≠ ⟨.keyword .mod, lexeme, loc⟩ :: t' := by
        cases hitems with
        | nil => exact fun _ _ _ => List.cons_ne_nil _ _ |>.symm
        | cons hfirst => exact hfirst.not_mod
      have hrun : Parse.Routine.file.Comes true (name, items) stream.tokens [] :=
        .call (Parse.moduleName_comes hname hstop) (.call (Parse.items_comes hitems rfl) .result)
      obtain ⟨_, _, hrun', hread⟩ | ⟨_, hrun', _⟩ := Module.ofTokens_cases file stream
      · cases hrun.unique hrun'
        exact hread
      · cases hrun.unique hrun'

/-- The lines to quote from do not matter where nothing is refused. -/
theorem Module.parse_eq_ok_iff {file : String} {stream : TokenStream} {lines : List String} {module_ : Module} :
    Module.parse file stream lines = .ok module_ ↔ SourceFile file stream module_ := by
  rw [← Module.ofTokens_eq_ok_iff, Module.parse]
  cases Module.ofTokens file stream with
  | ok read =>
    constructor
    · intro h
      cases h
      rfl
    · intro h
      cases h
      rfl
  | error fault =>
    constructor
    · intro h
      cases h
    · intro h
      cases h

/-- The parser accepts exactly the modules of the grammar, and no tokens are two of them. -/
theorem Module.parse_iff_sourceFile (file : String) (stream : TokenStream) (lines : List String) :
    (∀ module_, Module.parse file stream lines = .ok module_ ↔ SourceFile file stream module_) ∧
      ∀ module_ module_', SourceFile file stream module_ → SourceFile file stream module_' → module_ = module_' := by
  refine ⟨fun _ => Module.parse_eq_ok_iff, fun module_ module_' h h' => ?_⟩
  rw [← Module.ofTokens_eq_ok_iff] at h h'
  rw [h] at h'
  exact Except.ok.inj h'

end Smpl
