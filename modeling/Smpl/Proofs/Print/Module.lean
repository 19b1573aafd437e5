import Smpl.Proofs.Print.Lines

namespace Smpl

open List

theorem Member.Spellable.spells {member : Member TypeExpr} (h : member.Spellable) :
    ∃ text, member.print = .ok text ∧ Spells text member.kinds := by
  obtain ⟨text, htext, hspells⟩ := h.type.spells
  refine ⟨member.name ++ ": " ++ text, by simp [Member.print, htext], fun rest ks hks hrest => ?_⟩
  have hcolon := Lexes.symbol .colon (hspells hks hrest).space (.cons rfl)
  have hmember := Lexes.identifier h.name hcolon (.cons rfl)
  simpa [Member.kinds, Symbol.spelling] using hmember

theorem spells_of_isName {name : String} (h : isName name = true) : Spells name [.identifier name] :=
  fun _ _ hks hrest => Lexes.identifier h hks hrest.identifier

theorem names_spell {names : List String} (h : ∀ name ∈ names, isName name = true) :
    Forall₂ Spells names (names.map fun name => [.identifier name]) := by
  rw [forall₂_map_right_iff, forall₂_same]
  exact fun name hname => spells_of_isName (h name hname)

/-- The canonical text of a header spells its tokens. -/
theorem Header.Spellable.spells {header : Header TypeExpr} (h : header.Spellable) :
    ∃ text, header.print = .ok text ∧ Spells text header.kinds := by
  obtain ⟨texts, htexts, hspells⟩ := exists_texts fun member hmember => (h.params member hmember).spells
  obtain ⟨text, htext, hspells'⟩ := printResult_spells fun type htype => (h.result type htype).spells
  refine ⟨header.name ++ typeListText header.typeParams ++ "(" ++ commaSeparated texts ++ ")" ++ text,
    by simp [Header.print, htexts, htext], fun rest ks hks hrest => ?_⟩
  have hclose := Lexes.symbol .rightParen (hspells' hks hrest) (fun _ _ _ => rfl)
  have hparams := commaSeparated_spells hspells hclose (.cons rfl)
  have hopen := Lexes.symbol .leftParen hparams (fun _ _ _ => rfl)
  have htypes := typeListText_lexes (names_spell h.typeParams) hopen
  have hheader := Lexes.identifier h.name htypes (typeListText_ends (.cons rfl))
  simpa [Header.kinds, typeParamsKinds, enclosed, Symbol.spelling] using hheader

/-- A comma follows every field, the last one included. -/
theorem fields_read {fields : List (Member TypeExpr)} {texts : List String}
    (h : Forall₂ Spells texts (fields.map Member.kinds)) :
    LinesRead (texts.map (· ++ ",")) (fields.flatMap fun field => field.kinds ++ [.symbol .comma]) := by
  rw [forall₂_map_right_iff] at h
  induction h with
  | nil => exact .nil
  | cons hfirst _ ih =>
    refine .cons (fun rest ks hks => ?_) ih
    have hcomma := Lexes.symbol .comma hks.newline (fun _ _ _ => rfl)
    simpa [Symbol.spelling] using hfirst hcomma (.cons rfl)

/-- The canonical lines of an item are read as its tokens. -/
theorem Item.Spellable.reads {item : Item} (h : item.Spellable) :
    ∃ lines, item.print = .ok lines ∧ LinesRead lines item.kinds := by
  cases h with
  | @use loc name hname =>
    refine ⟨["use " ++ name ++ ";"], rfl, .single fun rest ks hks => ?_⟩
    have hend := Lexes.symbol .semicolon hks.newline (fun _ _ _ => rfl)
    have huse := Lexes.keyword .use (Lexes.identifier hname hend (.cons rfl)).space (.cons rfl)
    simpa [Item.kinds, Symbol.spelling, Keyword.spelling] using huse
  | @struct loc name fields hname hfields =>
    obtain ⟨texts, htexts, hspells⟩ := exists_texts fun field hfield => (hfields field hfield).spells
    cases fields with
    | nil =>
      refine ⟨["struct " ++ name ++ " \x7b\x7d"], rfl, .single fun rest ks hks => ?_⟩
      have hclose := Lexes.symbol .rightBrace hks.newline (fun _ _ _ => rfl)
      have hopen := Lexes.symbol .leftBrace hclose (fun _ _ _ => rfl)
      have hitem := Lexes.keyword .struct (Lexes.identifier hname hopen.space (.cons rfl)).space (.cons rfl)
      simpa [Item.kinds, Symbol.spelling, Keyword.spelling] using hitem
    | cons field fields =>
      have hopen : LineReads ("struct " ++ name ++ " \x7b") _ := guard_reads .struct rfl (spells_of_isName hname)
      refine ⟨("struct " ++ name ++ " \x7b") :: indented (texts.map (· ++ ",")) ++ ["\x7d"],
        by simp [Item.print, htexts], ?_⟩
      have hall := LinesRead.cons hopen ((fields_read hspells).indented.append (.single rightBrace_reads))
      simpa [Item.kinds] using hall
  | @opaqueType loc name typeParams hname hparams =>
    refine ⟨["opaque " ++ name ++ typeListText typeParams ++ ";"], rfl, .single fun rest ks hks => ?_⟩
    have hend := Lexes.symbol .semicolon hks.newline (fun _ _ _ => rfl)
    have hlist := typeListText_lexes (names_spell hparams) hend
    have hitem := Lexes.identifier hname hlist (typeListText_ends (.cons rfl))
    have hword := Lexes.keyword .opaqueType hitem.space (.cons rfl)
    simpa [Item.kinds, typeParamsKinds, Symbol.spelling, Keyword.spelling] using hword
  | @function loc header body hheader hbody =>
    obtain ⟨bodyLoc, stmts⟩ := body
    obtain ⟨text, htext, hspells⟩ := hheader.spells
    obtain ⟨lines, hlines, hreads⟩ := printBlock_reads (fun stmt hstmt => (hbody stmt hstmt).reads) bodyLoc
    exact ⟨("fn " ++ text ++ " \x7b") :: lines ++ ["\x7d"], by simp [Item.print, htext, hlines],
      .braced (guard_reads .fn rfl hspells) hreads bodyLoc⟩
  | @builtin loc header hheader =>
    obtain ⟨text, htext, hspells⟩ := hheader.spells
    refine ⟨["builtin fn " ++ text ++ ";"], by simp [Item.print, htext], .single fun rest ks hks => ?_⟩
    have hfn := Lexes.keyword .fn (LineReads.of_spells hspells hks).space (.cons rfl)
    have hbuiltin := Lexes.keyword .builtin hfn.space (.cons rfl)
    simpa [Item.kinds, Keyword.spelling] using hbuiltin

/-- Empty lines between paragraphs are skipped. -/
theorem paragraphs_read {paras : List (List String)} {kss : List (List TokenKind)}
    (h : Forall₂ LinesRead paras kss) : LinesRead (paragraphs paras) kss.flatten := by
  have hblank : LineReads "" [] := fun _ _ hks => hks.newline
  induction h with
  | nil => exact .nil
  | cons hfirst hothers ih =>
    cases hothers with
    | nil => simpa [paragraphs] using hfirst
    | cons => simpa [paragraphs] using hfirst.append (.cons hblank ih)

theorem toList_intercalate_newline {lines : List String} (h : lines ≠ []) :
    ("\n".intercalate lines ++ "\n").toList = lines.flatMap fun line => line.toList ++ ['\n'] := by
  induction lines with
  | nil => exact absurd rfl h
  | cons line lines ih =>
    cases lines with
    | nil => simp
    | cons next lines =>
      have ih := ih (cons_ne_nil _ _)
      simp only [String.toList_append, String.toList_intercalate] at ih ⊢
      rw [flatMap_cons, ← ih]
      simp

theorem LinesRead.lexes_intercalate {lines : List String} {kinds : List TokenKind} (h : LinesRead lines kinds) :
    Lexes ("\n".intercalate lines ++ "\n").toList kinds := by
  by_cases hne : lines = []
  · subst hne
    cases h
    exact Lexes.newline .nil
  · rw [toList_intercalate_newline hne]
    simpa using h.lexes .nil

/-- The canonical text of a module is read as its tokens. -/
theorem Module.Spellable.lexes {module_ : Module} (h : module_.Spellable) :
    ∃ text, module_.print = .ok text ∧ Lexes text.toList module_.kinds := by
  obtain ⟨items, hitems, hreads⟩ := exists_mapM_eq_ok fun item hitem => (h.items item hitem).reads
  have hreads : Forall₂ LinesRead items (module_.items.map Item.kinds) := by
    rw [forall₂_map_right_iff]
    exact hreads.flip
  cases hname : module_.name with
  | none =>
    refine ⟨"\n".intercalate (paragraphs items) ++ "\n", by simp [Module.print, hitems, hname], ?_⟩
    simpa [Module.kinds, nameKinds, hname, List.flatMap] using (paragraphs_read hreads).lexes_intercalate
  | some name =>
    have hmod : LineReads ("mod " ++ name ++ ";") [.keyword .mod, .identifier name, .symbol .semicolon] := by
      intro rest ks hks
      have hend := LineReads.of_spells (spells_of_isName (h.name name hname)) hks
      simpa [Keyword.spelling] using Lexes.keyword .mod hend.space (.cons rfl)
    have hlines := (paragraphs_read (.cons (.single hmod) hreads)).lexes_intercalate
    refine ⟨"\n".intercalate (paragraphs (["mod " ++ name ++ ";"] :: items)) ++ "\n",
      by simp [Module.print, hitems, hname], ?_⟩
    simpa [Module.kinds, nameKinds, hname, List.flatMap] using hlines

end Smpl
