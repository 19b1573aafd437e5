import Smpl.Proofs.Print.Expression

namespace Smpl

open List

/-- A line that is read as tokens of these kinds, whatever stands on the next one. -/
def LineReads (line : String) (kinds : List TokenKind) : Prop :=
  ∀ ⦃rest ks⦄, Lexes rest ks → Lexes (line.toList ++ '\n' :: rest) (kinds ++ ks)

/-- Lines that are read, one after the other, as tokens of these kinds. -/
inductive LinesRead : List String → List TokenKind → Prop
  | nil : LinesRead [] []
  | cons {line : String} {lines : List String} {kinds others : List TokenKind} :
    LineReads line kinds → LinesRead lines others → LinesRead (line :: lines) (kinds ++ others)

theorem Lexes.newline {rest : List Char} {ks : List TokenKind} (h : Lexes rest ks) : Lexes ('\n' :: rest) ks :=
  h.blank rfl

namespace LinesRead

variable {lines lines' : List String} {kinds kinds' : List TokenKind}

theorem single {line : String} (h : LineReads line kinds) : LinesRead [line] kinds := by
  simpa using LinesRead.cons h .nil

theorem append (h : LinesRead lines kinds) (h' : LinesRead lines' kinds') :
    LinesRead (lines ++ lines') (kinds ++ kinds') := by
  induction h with
  | nil => exact h'
  | cons hline _ ih =>
    rw [cons_append, append_assoc]
    exact .cons hline ih

/-- Indentation is skipped. -/
theorem indented (h : LinesRead lines kinds) : LinesRead (Smpl.indented lines) kinds := by
  induction h with
  | nil => exact .nil
  | @cons line _ _ _ hline _ ih =>
    refine .cons (fun rest ks hks => ?_) ih
    simpa [indentation] using (hline hks).space.space.space.space

/-- Lines that are read one by one are read as one text. -/
theorem lexes (h : LinesRead lines kinds) {rest : List Char} {ks : List TokenKind} (hks : Lexes rest ks) :
    Lexes (lines.flatMap (fun line => line.toList ++ ['\n']) ++ rest) (kinds ++ ks) := by
  induction h with
  | nil => exact hks
  | cons hline _ ih => simpa using hline ih

end LinesRead

section

variable {stmts : List Stmt}
  (h : ∀ stmt ∈ stmts, ∃ lines, stmt.print = .ok lines ∧ LinesRead lines stmt.kinds)
include h

theorem printStmts_reads : ∃ lines, printStmts stmts = .ok lines ∧ LinesRead lines (stmtsKinds stmts) := by
  induction stmts with
  | nil => exact ⟨[], rfl, .nil⟩
  | cons stmt stmts ih =>
    obtain ⟨lines, hlines, hreads⟩ := h stmt mem_cons_self
    obtain ⟨lines', hlines', hreads'⟩ := ih fun stmt' hstmt' => h stmt' (mem_cons_of_mem stmt hstmt')
    exact ⟨lines ++ lines', by simp [printStmts, hlines, hlines'], hreads.append hreads'⟩

theorem printBlock_reads (loc : Location) :
    ∃ lines, printBlock ⟨loc, stmts⟩ = .ok lines ∧ LinesRead lines (stmtsKinds stmts) := by
  obtain ⟨lines, hlines, hreads⟩ := printStmts_reads h
  exact ⟨indented lines, by simp [printBlock, hlines], hreads.indented⟩

end

variable {line : String} {kinds : List TokenKind}

/-- A line that opens a block, the lines of the block and the brace that closes it. -/
theorem LinesRead.braced {lines : List String} {stmts : List Stmt}
    (hline : LineReads line (kinds ++ [.symbol .leftBrace])) (hlines : LinesRead lines (stmtsKinds stmts))
    (loc : Location) : LinesRead (line :: lines ++ ["\x7d"]) (kinds ++ blockKinds ⟨loc, stmts⟩) := by
  have hclose : LineReads "\x7d" [.symbol .rightBrace] :=
    fun _ _ hks => Lexes.symbol .rightBrace hks.newline (fun _ _ _ => rfl)
  simpa [blockKinds] using LinesRead.cons hline (hlines.append (.single hclose))

theorem rightBrace_reads : LineReads "\x7d" [.symbol .rightBrace] :=
  fun _ _ hks => Lexes.symbol .rightBrace hks.newline (fun _ _ _ => rfl)

/-- Lines from an open block on to the last closing brace, which is not among them. -/
def ReadsOpen (lines : List String) (kinds : List TokenKind) : Prop :=
  ∃ ks, LinesRead lines ks ∧ ks ++ [.symbol .rightBrace] = .symbol .rightBrace :: kinds

/-- A line that guards a block: the word, the condition and the opening brace. -/
theorem guard_reads (word : Keyword) {opening condition : String} (hopening : opening = word.spelling ++ " ")
    (h : Spells condition kinds) :
    LineReads (opening ++ condition ++ " \x7b") (.keyword word :: kinds ++ [.symbol .leftBrace]) := by
  intro rest ks hks
  have hopen := Lexes.symbol .leftBrace hks.newline (fun _ _ _ => rfl)
  have hword := Lexes.keyword word (h hopen.space (.cons rfl)).space (.cons rfl)
  simpa [hopening, Symbol.spelling] using hword

theorem LineReads.afterBrace {text : String} (h : LineReads line kinds) (htext : text = "\x7d " ++ line) :
    LineReads text (.symbol .rightBrace :: kinds) := by
  intro rest ks hks
  have hclose := Lexes.symbol .rightBrace (h hks).space (fun _ _ _ => rfl)
  simpa [htext, Symbol.spelling] using hclose

section

variable {branches : List (Branch Expr Stmt)} (hconditions : ∀ branch ∈ branches, branch.condition.Spellable)
  (hbodies : ∀ branch ∈ branches, ∀ stmt ∈ branch.body.statements,
    ∃ lines, stmt.print = .ok lines ∧ LinesRead lines stmt.kinds)
include hconditions hbodies

/-- The lines of further branches are read as their tokens, up to the last brace. -/
theorem printBranches_reads : ∃ lines, printBranches "\x7d elif " branches = .ok lines ∧
    ReadsOpen lines (branchesKinds .elifBranch branches) := by
  induction branches with
  | nil => exact ⟨[], rfl, [], .nil, rfl⟩
  | cons branch branches ih =>
    obtain ⟨loc, condition, bodyLoc, stmts⟩ := branch
    obtain ⟨text, htext, hspells, _⟩ := (hconditions _ mem_cons_self).spells 0
    obtain ⟨lines, hlines, hreads⟩ := printBlock_reads (hbodies _ mem_cons_self) bodyLoc
    obtain ⟨lines', hlines', ks, hreads', hks⟩ := ih (fun branch' h => hconditions branch' (mem_cons_of_mem _ h))
      (fun branch' h => hbodies branch' (mem_cons_of_mem _ h))
    have htext : condition.print 0 = .ok text := htext
    have hguard : LineReads ("elif " ++ text ++ " \x7b") _ := guard_reads .elifBranch rfl hspells
    refine ⟨("\x7d elif " ++ text ++ " \x7b") :: (lines ++ lines'), by simp [printBranches, htext, hlines, hlines'],
      _, .cons (hguard.afterBrace (by simp [← String.append_assoc])) (hreads.append hreads'), ?_⟩
    simp [branchesKinds, blockKinds, hks]

end

theorem printElse_reads {otherwise : Option (Block Stmt)}
    (h : ∀ body ∈ otherwise, ∀ stmt ∈ body.statements, ∃ lines, stmt.print = .ok lines ∧ LinesRead lines stmt.kinds) :
    ∃ lines, printElse otherwise = .ok lines ∧ ReadsOpen lines (elseKinds otherwise) := by
  cases otherwise with
  | none => exact ⟨[], rfl, [], .nil, rfl⟩
  | some body =>
    obtain ⟨bodyLoc, stmts⟩ := body
    obtain ⟨lines, hlines, hreads⟩ := printBlock_reads (h _ rfl) bodyLoc
    have helse : LineReads "\x7d else \x7b" [.symbol .rightBrace, .keyword .elseBranch, .symbol .leftBrace] := by
      intro rest ks hks
      have hopen := Lexes.symbol .leftBrace hks.newline (fun _ _ _ => rfl)
      have hword := Lexes.keyword .elseBranch hopen.space (.cons rfl)
      exact Lexes.symbol .rightBrace hword.space (fun _ _ _ => rfl)
    refine ⟨"\x7d else \x7b" :: lines, by simp [printElse, hlines], _, .cons helse hreads, ?_⟩
    simp [elseKinds, blockKinds]

/-- A line of an expression that ends a statement. -/
theorem LineReads.of_spells {value : String} (h : Spells value kinds) :
    LineReads (value ++ ";") (kinds ++ [.symbol .semicolon]) := by
  intro rest ks hks
  have hend := Lexes.symbol .semicolon hks.newline (fun _ _ _ => rfl)
  simpa [Symbol.spelling] using h hend (.cons rfl)

theorem LineReads.of_keyword (word : Keyword) (hline : line = word.spelling ++ ";") :
    LineReads line [.keyword word, .symbol .semicolon] := by
  intro rest ks hks
  have hend := Lexes.symbol .semicolon hks.newline (fun _ _ _ => rfl)
  have hword := Lexes.keyword word hend (.cons rfl)
  simpa [hline, Symbol.spelling] using hword

/-- The canonical lines of a statement are read as its tokens. -/
theorem Stmt.Spellable.reads {stmt : Stmt} (h : stmt.Spellable) :
    ∃ lines, stmt.print = .ok lines ∧ LinesRead lines stmt.kinds := by
  induction h with
  | @block body _ ih =>
    obtain ⟨bodyLoc, stmts⟩ := body
    obtain ⟨lines, hlines, hreads⟩ := printBlock_reads ih bodyLoc
    have hopen : LineReads "\x7b" ([] ++ [.symbol .leftBrace]) :=
      fun _ _ hks => Lexes.symbol .leftBrace hks.newline (fun _ _ _ => rfl)
    exact ⟨"\x7b" :: lines ++ ["\x7d"], by simp [Stmt.print, hlines], .braced hopen hreads bodyLoc⟩
  | @letBinding loc name type value hname htype hvalue =>
    obtain ⟨text, htext, hspells⟩ := htype.spells
    obtain ⟨text', htext', hspells', _⟩ := hvalue.spells 0
    have htext' : value.print 0 = .ok text' := htext'
    refine ⟨["let " ++ name ++ ": " ++ text ++ " = " ++ text' ++ ";"], by simp [Stmt.print, htext, htext'],
      .single fun rest ks hks => ?_⟩
    have hassign := Lexes.symbol .assign (LineReads.of_spells hspells' hks).space (.cons rfl)
    have hcolon := Lexes.symbol .colon (hspells hassign.space (.cons rfl)).space (.cons rfl)
    have hlet := Lexes.keyword .letBinding (Lexes.identifier hname hcolon (.cons rfl)).space (.cons rfl)
    simpa [Stmt.kinds, Symbol.spelling, Keyword.spelling] using hlet
  | @assign loc target fields value htarget hfields hvalue =>
    obtain ⟨text, htext, hspells, _⟩ := hvalue.spells 0
    have htext : value.print 0 = .ok text := htext
    refine ⟨[chainText target fields ++ " = " ++ text ++ ";"], by simp [Stmt.print, htext],
      .single fun rest ks hks => ?_⟩
    have hassign := Lexes.symbol .assign (LineReads.of_spells hspells hks).space (.cons rfl)
    have hchain := Lexes.fields htarget hfields hassign.space (.cons rfl)
    simpa [Stmt.kinds, Symbol.spelling] using hchain
  | @ifChain loc branches otherwise hne hconditions _ _ ihbranches ihelse =>
    obtain ⟨⟨branchLoc, condition, bodyLoc, stmts⟩, others, rfl⟩ := exists_cons_of_ne_nil hne
    obtain ⟨text, htext, hspells, _⟩ := (hconditions _ mem_cons_self).spells 0
    have htext : condition.print 0 = .ok text := htext
    obtain ⟨lines, hlines, hreads⟩ := printBlock_reads (ihbranches _ mem_cons_self) bodyLoc
    obtain ⟨lines', hlines', ks, hreads', hks⟩ := printBranches_reads
      (fun branch h => hconditions branch (mem_cons_of_mem _ h))
      (fun branch h => ihbranches branch (mem_cons_of_mem _ h))
    obtain ⟨lines'', hlines'', ks', hreads'', hks'⟩ := printElse_reads ihelse
    have hguard : LineReads ("if " ++ text ++ " \x7b") _ := guard_reads .ifBranch rfl hspells
    refine ⟨("if " ++ text ++ " \x7b") :: (lines ++ lines') ++ lines'' ++ ["\x7d"],
      by simp [Stmt.print, printBranches, htext, hlines, hlines', hlines''], ?_⟩
    have hall := ((LinesRead.cons hguard (hreads.append hreads')).append hreads'').append (.single rightBrace_reads)
    have hkinds : ks ++ (ks' ++ [.symbol .rightBrace]) =
        .symbol .rightBrace :: (branchesKinds .elifBranch others ++ elseKinds otherwise) := by
      rw [hks', append_cons, hks, cons_append]
    simpa [Stmt.kinds, branchesKinds, blockKinds, hkinds] using hall
  | @whileLoop loc condition body hcondition _ ih =>
    obtain ⟨bodyLoc, stmts⟩ := body
    obtain ⟨text, htext, hspells, _⟩ := hcondition.spells 0
    have htext : condition.print 0 = .ok text := htext
    obtain ⟨lines, hlines, hreads⟩ := printBlock_reads ih bodyLoc
    exact ⟨("while " ++ text ++ " \x7b") :: lines ++ ["\x7d"], by simp [Stmt.print, htext, hlines],
      .braced (guard_reads .whileLoop rfl hspells) hreads bodyLoc⟩
  | @returnValue loc value hvalue =>
    cases value with
    | none => exact ⟨["return;"], rfl, .single (.of_keyword .returnValue rfl)⟩
    | some value =>
      obtain ⟨text, htext, hspells, _⟩ := (hvalue value rfl).spells 0
      have htext : value.print 0 = .ok text := htext
      refine ⟨["return " ++ text ++ ";"], by simp [Stmt.print, htext], .single fun rest ks hks => ?_⟩
      have hword := Lexes.keyword .returnValue (LineReads.of_spells hspells hks).space (.cons rfl)
      simpa [Stmt.kinds, Keyword.spelling] using hword
  | breakLoop => exact ⟨["break;"], rfl, .single (.of_keyword .breakLoop rfl)⟩
  | continueLoop => exact ⟨["continue;"], rfl, .single (.of_keyword .continueLoop rfl)⟩
  | @expression loc value hvalue =>
    obtain ⟨text, htext, hspells, _⟩ := hvalue.spells 0
    have htext : value.print 0 = .ok text := htext
    exact ⟨[text ++ ";"], by simp [Stmt.print, htext], .single (.of_spells hspells)⟩

end Smpl
