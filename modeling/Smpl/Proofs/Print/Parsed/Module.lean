import Smpl.Proofs.Print.Parsed.Expression

namespace Smpl

open List

/-- A statement that a text denotes as it stands: spellable, and its canonical text adds no
    parentheses. -/
structure Stmt.Settled (stmt : Stmt) : Prop where
  spellable : stmt.Spellable
  grouped : stmt.grouped = stmt

structure Block.Settled (body : Block Stmt) : Prop where
  spellable : ∀ stmt ∈ body.statements, stmt.Spellable
  grouped : groupedBlock body = body

structure Branch.Settled (branch : Branch Expr Stmt) : Prop where
  condition : branch.condition.Settled 1
  body : branch.body.Settled

structure Item.Settled (item : Item) : Prop where
  spellable : item.Spellable
  grouped : item.grouped = item

theorem groupedStmts_of_settled {stmts : List Stmt} (h : ∀ stmt ∈ stmts, stmt.Settled) : groupedStmts stmts = stmts :=
  forall_mem_induct stmts h rfl fun _ _ hfirst ih => by rw [groupedStmts, hfirst.grouped, ih]

theorem groupedBranches_of_settled {branches : List (Branch Expr Stmt)} (h : ∀ branch ∈ branches, branch.Settled) :
    groupedBranches branches = branches :=
  forall_mem_induct branches h rfl fun _ _ hfirst ih => by
    rw [groupedBranches, hfirst.condition.grouped 0 (by omega), hfirst.body.grouped, ih]

theorem groupedElse_of_settled {otherwise : Option (Block Stmt)} (h : ∀ body ∈ otherwise, body.Settled) :
    groupedElse otherwise = otherwise := by
  cases otherwise with
  | none => rfl
  | some body => rw [groupedElse, (h body rfl).grouped]

namespace Grammar

theorem Braced.yields {statement : Rule Stmt} (hstatement : Yields statement Stmt.Settled) :
    Yields (Braced statement) Block.Settled := by
  intro body ts rest h hts
  cases h with
  | mk hopen hbody hclose =>
    obtain ⟨hbody, hts⟩ := hbody.keeps hstatement (hopen.yields hts).2
    refine ⟨⟨fun stmt hstmt => (hbody stmt hstmt).spellable, ?_⟩, (hclose.yields hts).2⟩
    rw [groupedBlock, groupedStmts_of_settled hbody]

theorem Guarded.yields {word : Keyword} {block : Rule (Block Stmt)} (hblock : Yields block Block.Settled) :
    Yields (Guarded word block) Branch.Settled := by
  intro branch ts rest h hts
  cases h with
  | mk hword hcondition hbody =>
    obtain ⟨hcondition, hts⟩ := hcondition.yields (hword.yields hts).2
    obtain ⟨hbody, hrest⟩ := hblock hbody hts
    exact ⟨⟨hcondition, hbody⟩, hrest⟩

theorem Otherwise.yields {block : Rule (Block Stmt)} (hblock : Yields block Block.Settled) :
    Yields (Otherwise block) fun otherwise => ∀ body ∈ otherwise, body.Settled := by
  intro otherwise ts rest h hts
  cases h with
  | none => exact ⟨by simp, hts⟩
  | some hword hbody =>
    obtain ⟨hbody, hrest⟩ := hblock hbody (hword.yields hts).2
    exact ⟨by simpa using hbody, hrest⟩

/-- A statement that is read from spellable tokens can be spelled, and needs no more parentheses. -/
theorem Statement.yields : Yields Statement Stmt.Settled := by
  intro stmt ts rest h
  refine Statement.induct (motive := fun stmt ts rest => (∀ token ∈ ts, token.kind.isSpellable = true) →
    stmt.Settled ∧ ∀ token ∈ rest, token.kind.isSpellable = true) (fun h hblocks hts => ?_) h
  cases h with
  | letBinding hword hname hcolon htype hassign hvalue hend =>
    obtain ⟨hname, hts⟩ := hname.yields (hword.yields hts).2
    obtain ⟨htype, hts⟩ := htype.yields (hcolon.yields hts).2
    obtain ⟨hvalue, hts⟩ := hvalue.yields (hassign.yields hts).2
    refine ⟨⟨.letBinding hname htype hvalue.spellable, ?_⟩, (hend.yields hts).2⟩
    rw [Stmt.grouped, hvalue.grouped 0 (by omega)]
  | ifChain hfirst hothers hotherwise =>
    obtain ⟨hfirst, hothers, hotherwise⟩ := ifChain_of_blocks hfirst hothers hotherwise hblocks
    obtain ⟨hfirst, hts⟩ := hfirst.yields (Braced.yields fun _ _ _ h => h) hts
    obtain ⟨hothers, hts⟩ := hothers.keeps (Guarded.yields (Braced.yields fun _ _ _ h => h)) hts
    obtain ⟨hotherwise, hrest⟩ := hotherwise.yields (Braced.yields fun _ _ _ h => h) hts
    have hbranches := forall_mem_cons.2 ⟨hfirst, hothers⟩
    refine ⟨⟨.ifChain (cons_ne_nil _ _) (fun branch hbranch => (hbranches branch hbranch).condition.spellable)
      (fun branch hbranch => (hbranches branch hbranch).body.spellable)
      (fun body hbody => (hotherwise body hbody).spellable), ?_⟩, hrest⟩
    rw [Stmt.grouped, groupedBranches_of_settled hbranches, groupedElse_of_settled hotherwise]
  | whileLoop hword hcondition hbody =>
    obtain ⟨hcondition, hts⟩ := hcondition.yields (hword.yields hts).2
    obtain ⟨hbody, hrest⟩ := (hblocks _ mem_cons_self _ _ hbody).yields (fun _ _ _ h => h) hts
    refine ⟨⟨.whileLoop hcondition.spellable hbody.spellable, ?_⟩, hrest⟩
    rw [Stmt.grouped, hcondition.grouped 0 (by omega), hbody.grouped]
  | returnNothing hword hend => exact ⟨⟨.returnValue (by simp), rfl⟩, (hend.yields (hword.yields hts).2).2⟩
  | returnValue hword hvalue hend =>
    obtain ⟨hvalue, hts⟩ := hvalue.yields (hword.yields hts).2
    refine ⟨⟨.returnValue (by simpa using hvalue.spellable), ?_⟩, (hend.yields hts).2⟩
    rw [Stmt.grouped, Option.map_some, hvalue.grouped 0 (by omega)]
  | breakLoop hword hend => exact ⟨⟨.breakLoop, rfl⟩, (hend.yields (hword.yields hts).2).2⟩
  | continueLoop hword hend => exact ⟨⟨.continueLoop, rfl⟩, (hend.yields (hword.yields hts).2).2⟩
  | block hbody =>
    obtain ⟨hbody, hrest⟩ := (hblocks _ mem_cons_self _ _ hbody).yields (fun _ _ _ h => h) hts
    exact ⟨⟨.block hbody.spellable, by rw [Stmt.grouped, hbody.grouped]⟩, hrest⟩
  | assign htarget hfields hassign hvalue hend =>
    obtain ⟨htarget, hts⟩ := htarget.yields hts
    obtain ⟨hfields, hts⟩ := hfields.yields hts
    obtain ⟨hvalue, hts⟩ := hvalue.yields (hassign.yields hts).2
    refine ⟨⟨.assign htarget hfields hvalue.spellable, ?_⟩, (hend.yields hts).2⟩
    rw [Stmt.grouped, hvalue.grouped 0 (by omega)]
  | expression hvalue hend =>
    obtain ⟨hvalue, hts⟩ := hvalue.yields hts
    refine ⟨⟨.expression hvalue.spellable, ?_⟩, (hend.yields hts).2⟩
    rw [Stmt.grouped, hvalue.grouped 0 (by omega)]

theorem Declared.yields : Yields Declared Member.Spellable := by
  intro member ts rest h hts
  cases h with
  | mk hname hcolon htype =>
    obtain ⟨hname, hts⟩ := hname.yields hts
    obtain ⟨htype, hrest⟩ := htype.yields (hcolon.yields hts).2
    exact ⟨⟨hname, htype⟩, hrest⟩

theorem ParamName.yields : Yields ParamName fun name => isName name = true := by
  intro name ts rest h hts
  cases h with
  | mk hname => exact hname.yields hts

theorem Head.yields : Yields Head Header.Spellable := by
  intro header ts rest h hts
  cases h with
  | mk hname htypes hopen hparams hclose hresult =>
    obtain ⟨hname, hts⟩ := hname.yields hts
    obtain ⟨htypes, hts⟩ := htypes.keeps ParamName.yields hts
    obtain ⟨hparams, hts⟩ := hparams.keeps Declared.yields (hopen.yields hts).2
    obtain ⟨hresult, hrest⟩ := hresult.keeps Written.yields (hclose.yields hts).2
    exact ⟨⟨hname, htypes, hparams, hresult⟩, hrest⟩

/-- So can an item. -/
theorem Declaration.yields : Yields Declaration Item.Settled := by
  intro item ts rest h hts
  cases h with
  | use hword hname hend =>
    obtain ⟨hname, hts⟩ := hname.yields (hword.yields hts).2
    exact ⟨⟨.use hname, rfl⟩, (hend.yields hts).2⟩
  | struct hword hname hopen hfields hclose =>
    obtain ⟨hname, hts⟩ := hname.yields (hword.yields hts).2
    obtain ⟨hfields, hts⟩ := hfields.keeps Declared.yields (hopen.yields hts).2
    exact ⟨⟨.struct hname hfields, rfl⟩, (hclose.yields hts).2⟩
  | opaqueType hword hname htypes hend =>
    obtain ⟨hname, hts⟩ := hname.yields (hword.yields hts).2
    obtain ⟨htypes, hts⟩ := htypes.keeps ParamName.yields hts
    exact ⟨⟨.opaqueType hname htypes, rfl⟩, (hend.yields hts).2⟩
  | function hword hhead hbody =>
    obtain ⟨hhead, hts⟩ := hhead.yields (hword.yields hts).2
    obtain ⟨hbody, hrest⟩ := hbody.yields Statement.yields hts
    exact ⟨⟨.function hhead hbody.spellable, by rw [Item.grouped, hbody.grouped]⟩, hrest⟩
  | builtin hword hfn hhead hend =>
    obtain ⟨hhead, hts⟩ := hhead.yields (hfn.yields (hword.yields hts).2).2
    exact ⟨⟨.builtin hhead, rfl⟩, (hend.yields hts).2⟩

theorem ModuleName.yields : Yields ModuleName fun name => ∀ text ∈ name, isName text = true := by
  intro name ts rest h hts
  cases h with
  | none => exact ⟨by simp, hts⟩
  | some hword hname hend =>
    obtain ⟨hname, hts⟩ := hname.yields (hword.yields hts).2
    exact ⟨fun _ htext => Option.mem_some.1 htext ▸ hname, (hend.yields hts).2⟩

/-- A module that spellable tokens derive is spellable, and its canonical text adds no parentheses. -/
theorem SourceFile.settled {file : String} {stream : TokenStream} {module_ : Module}
    (h : SourceFile file stream module_)
    (hstream : ∀ token ∈ stream.tokens, token.kind.isSpellable = true) :
    module_.Spellable ∧ module_.grouped = module_ := by
  cases h with
  | @mk name items _ hname hitems =>
    obtain ⟨hname, hts⟩ := hname.yields hstream
    obtain ⟨hitems, _⟩ := hitems.keeps Declaration.yields hts
    have hgrouped : items.map Item.grouped = items :=
      (map_congr_left fun item hitem => (hitems item hitem).grouped).trans (map_id' items)
    exact ⟨⟨hname, fun item hitem => (hitems item hitem).spellable⟩, by rw [Module.grouped, hgrouped]⟩

end Grammar

end Smpl
