import Smpl.Proofs.Print.RoundTrip
import Smpl.Proofs.Relocate.Shape

namespace Smpl

open List

mutual

/-- The expression without its parentheses: only the tree keeps its grouping. -/
def Expr.unparen : Expr → Expr
  | .paren _ inner => inner.unparen
  | .call loc callee typeArgs args => .call loc callee typeArgs (unparenExprs args)
  | .init loc struct fields => .init loc struct (unparenInits fields)
  | .unary loc op operand => .unary loc op operand.unparen
  | .binary loc op left right => .binary loc op left.unparen right.unparen
  | .operatorless loc operands => .operatorless loc (unparenExprs operands)
  | e => e

def unparenExprs : List Expr → List Expr
  | [] => []
  | e :: exprs => e.unparen :: unparenExprs exprs

def unparenInits : List (FieldInit Expr) → List (FieldInit Expr)
  | [] => []
  | ⟨loc, name, value⟩ :: inits => ⟨loc, name, value.unparen⟩ :: unparenInits inits

end

mutual

/-- The statement with no parentheses in any of its expressions. -/
def Stmt.unparen : Stmt → Stmt
  | .block body => .block (unparenBlock body)
  | .letBinding loc name type value => .letBinding loc name type value.unparen
  | .assign loc target fields value => .assign loc target fields value.unparen
  | .ifChain loc branches otherwise => .ifChain loc (unparenBranches branches) (unparenElse otherwise)
  | .whileLoop loc condition body => .whileLoop loc condition.unparen (unparenBlock body)
  | .returnValue loc value => .returnValue loc (value.map Expr.unparen)
  | .expression loc value => .expression loc value.unparen
  | stmt => stmt

def unparenBlock : Block Stmt → Block Stmt
  | ⟨loc, statements⟩ => ⟨loc, unparenStmts statements⟩

def unparenStmts : List Stmt → List Stmt
  | [] => []
  | stmt :: stmts => stmt.unparen :: unparenStmts stmts

def unparenBranches : List (Branch Expr Stmt) → List (Branch Expr Stmt)
  | [] => []
  | ⟨loc, condition, body⟩ :: branches => ⟨loc, condition.unparen, unparenBlock body⟩ :: unparenBranches branches

def unparenElse : Option (Block Stmt) → Option (Block Stmt)
  | none => none
  | some body => some (unparenBlock body)

end

def Item.unparen : Item → Item
  | .function loc header body => .function loc header (unparenBlock body)
  | item => item

/-- The module with no parentheses in any of its expressions. -/
def Module.unparen (module_ : Module) : Module :=
  { module_ with items := module_.items.map Item.unparen }

section

variable (exprs : List Expr) (inits : List (FieldInit Expr)) (stmts : List Stmt) (branches : List (Branch Expr Stmt))

theorem groupedExprs_eq_map : groupedExprs exprs = exprs.map (Expr.grouped 0) := eq_map_of_cons rfl fun _ _ => rfl

theorem groupedInits_eq_map : groupedInits inits = inits.map fun init => { init with value := init.value.grouped 0 } :=
  eq_map_of_cons rfl fun _ _ => rfl

theorem groupedStmts_eq_map : groupedStmts stmts = stmts.map Stmt.grouped := eq_map_of_cons rfl fun _ _ => rfl

theorem groupedBranches_eq_map : groupedBranches branches = branches.map fun branch =>
    ⟨branch.loc, branch.condition.grouped 0, groupedBlock branch.body⟩ := eq_map_of_cons rfl fun _ _ => rfl

theorem unparenExprs_eq_map : unparenExprs exprs = exprs.map Expr.unparen := eq_map_of_cons rfl fun _ _ => rfl

theorem unparenInits_eq_map : unparenInits inits = inits.map fun init => { init with value := init.value.unparen } :=
  eq_map_of_cons rfl fun _ _ => rfl

theorem unparenStmts_eq_map : unparenStmts stmts = stmts.map Stmt.unparen := eq_map_of_cons rfl fun _ _ => rfl

theorem unparenBranches_eq_map : unparenBranches branches = branches.map fun branch =>
    ⟨branch.loc, branch.condition.unparen, unparenBlock branch.body⟩ := eq_map_of_cons rfl fun _ _ => rfl

end

/-- The parentheses that the canonical text adds are parentheses only. -/
theorem Expr.unparen_grouped (needed : Nat) (e : Expr) : (e.grouped needed).unparen = e.unparen := by
  induction e using Expr.induct generalizing needed with
  | binary loc op left right hleft hright =>
    rw [grouped]
    split <;> simp only [unparen, hleft, hright]
  | unary loc op operand hoperand => rw [grouped, unparen, hoperand, unparen]
  | paren loc inner hinner => rw [grouped, unparen, hinner, unparen]
  | call loc callee typeArgs args hargs =>
    simpa [grouped, unparen, groupedExprs_eq_map, unparenExprs_eq_map] using fun e he => hargs e he 0
  | init loc struct fields hfields =>
    simpa [grouped, unparen, groupedInits_eq_map, unparenInits_eq_map] using fun init hinit => hfields init hinit 0
  | literal | binding | field | operatorless | unknown => rfl

theorem unparenBlock_grouped_of_mem {body : Block Stmt}
    (h : ∀ stmt ∈ body.statements, stmt.grouped.unparen = stmt.unparen) :
    unparenBlock (groupedBlock body) = unparenBlock body := by
  cases body
  simpa [groupedBlock, unparenBlock, groupedStmts_eq_map, unparenStmts_eq_map] using h

/-- Nor are those in a statement anything else. -/
theorem Stmt.unparen_grouped (stmt : Stmt) : stmt.grouped.unparen = stmt.unparen := by
  induction stmt using Stmt.induct with
  | block body hbody => rw [grouped, unparen, unparenBlock_grouped_of_mem hbody, unparen]
  | letBinding | assign | expression => rw [grouped, unparen, Expr.unparen_grouped, unparen]
  | ifChain loc branches otherwise hbranches hotherwise =>
    have helse : unparenElse (groupedElse otherwise) = unparenElse otherwise := by
      cases otherwise with
      | none => rfl
      | some body => rw [groupedElse, unparenElse, unparenBlock_grouped_of_mem (hotherwise body rfl), unparenElse]
    simpa [grouped, unparen, helse, groupedBranches_eq_map, unparenBranches_eq_map, Expr.unparen_grouped] using
      fun branch hbranch => unparenBlock_grouped_of_mem (hbranches branch hbranch)
  | whileLoop loc condition body hbody =>
    rw [grouped, unparen, Expr.unparen_grouped, unparenBlock_grouped_of_mem hbody, unparen]
  | returnValue loc value => cases value <;> simp [grouped, unparen, Expr.unparen_grouped]
  | breakLoop | continueLoop | unknown => rfl

section

variable {move : Location → Location}

/-- Moving an expression and leaving out its parentheses can be done in either order. -/
theorem Expr.relocate_unparen (e : Expr) : e.unparen.relocate move = (e.relocate move).unparen := by
  induction e using Expr.induct with
  | paren loc inner hinner => exact hinner
  | unary loc op operand hoperand => simp [relocate, unparen, hoperand]
  | binary loc op left right hleft hright => simp [relocate, unparen, hleft, hright]
  | call loc callee typeArgs args hargs =>
    simpa [relocate, unparen, relocateExprs_eq_map, unparenExprs_eq_map] using hargs
  | operatorless loc operands hoperands =>
    simpa [relocate, unparen, relocateExprs_eq_map, unparenExprs_eq_map] using hoperands
  | init loc struct fields hfields =>
    simpa [relocate, unparen, relocateInits_eq_map, unparenInits_eq_map] using hfields
  | literal | binding | field | unknown => rfl

theorem relocateBlock_unparen_of_mem {body : Block Stmt}
    (h : ∀ stmt ∈ body.statements, stmt.unparen.relocate move = (stmt.relocate move).unparen) :
    relocateBlock move (unparenBlock body) = unparenBlock (relocateBlock move body) := by
  cases body
  simpa [relocateBlock, unparenBlock, relocateStmts_eq_map, unparenStmts_eq_map] using h

theorem Stmt.relocate_unparen (stmt : Stmt) : stmt.unparen.relocate move = (stmt.relocate move).unparen := by
  induction stmt using Stmt.induct with
  | block body hbody => simp [relocate, unparen, relocateBlock_unparen_of_mem hbody]
  | letBinding | assign | expression => simp [relocate, unparen, Expr.relocate_unparen]
  | ifChain loc branches otherwise hbranches hotherwise =>
    have helse : relocateElse move (unparenElse otherwise) = unparenElse (relocateElse move otherwise) := by
      cases otherwise with
      | none => rfl
      | some body => simp [relocateElse, unparenElse, relocateBlock_unparen_of_mem (hotherwise body rfl)]
    simpa [relocate, unparen, helse, relocateBranches_eq_map, unparenBranches_eq_map, Expr.relocate_unparen] using
      fun branch hbranch => relocateBlock_unparen_of_mem (hbranches branch hbranch)
  | whileLoop loc condition body hbody =>
    simp [relocate, unparen, Expr.relocate_unparen, relocateBlock_unparen_of_mem hbody]
  | returnValue loc value => cases value <;> simp [relocate, unparen, Expr.relocate_unparen]
  | breakLoop | continueLoop | unknown => rfl

theorem Item.relocate_unparen (item : Item) : item.unparen.relocate move = (item.relocate move).unparen := by
  cases item with
  | function loc header body =>
    simp [relocate, unparen, relocateBlock_unparen_of_mem fun stmt _ => stmt.relocate_unparen]
  | use | struct | opaqueType | builtin | other => rfl

end

theorem Item.unparen_grouped (item : Item) : item.grouped.unparen = item.unparen := by
  cases item with
  | function loc header body =>
    rw [Item.grouped, Item.unparen, unparenBlock_grouped_of_mem fun stmt _ => stmt.unparen_grouped, Item.unparen]
  | use | struct | opaqueType | builtin | other => rfl

theorem Module.unparen_grouped (module_ : Module) : module_.grouped.unparen = module_.unparen := by
  have hitems : Item.unparen ∘ Item.grouped = Item.unparen := funext Item.unparen_grouped
  rw [Module.grouped, Module.unparen, map_map, hitems, Module.unparen]

/-- Modules that differ at most in their locations do so without their parentheses too. -/
theorem Module.same_unparen {module_ module_' : Module} (h : module_.same module_' = true) :
    module_.unparen.same module_'.unparen = true := by
  obtain ⟨hname, hitems⟩ := Bool.and_eq_true_iff.1 h
  refine Bool.and_eq_true_iff.2 ⟨hname, ?_⟩
  have hsame := (sameLists_iff fun item _ => item.same_iff default).1 hitems
  rw [unparen, unparen, sameLists_iff fun item _ => item.same_iff default]
  simpa [Function.comp_def, Item.relocate_unparen] using congrArg (List.map Item.unparen) hsame

/-- Printing keeps the grouping of every tree that some text denotes, also of one that was never read:
    its canonical text is read back as the same tree, apart from parentheses. -/
theorem Module.Spellable.reads_unparen {module_ : Module} (h : module_.Spellable) :
    ∃ text, module_.print = .ok text ∧
      ∀ file, ∃ module_', Module.ofSource file text = .ok module_' ∧ module_.unparen.same module_'.unparen = true := by
  obtain ⟨text, hprint, hreads⟩ := h.reads
  refine ⟨text, hprint, fun file => ?_⟩
  obtain ⟨module_', hmodule, hsame⟩ := hreads file
  have hunparen := Module.same_unparen hsame
  rw [Module.unparen_grouped] at hunparen
  exact ⟨module_', hmodule, hunparen⟩

/-- The tree of `-(a - (b - -c)) * (a < b && c)`, which has no parentheses of its own. -/
theorem Module.Spellable.reads_unparen_nested :
    let name (text : String) : Expr := .binding default (.bare text)
    let difference : Expr := .binary default .subtract (name "a")
      (.binary default .subtract (name "b") (.unary default .negate (name "c")))
    let condition : Expr := .binary default .and (.binary default .less (name "a") (name "b")) (name "c")
    let product : Expr := .binary default .multiply (.unary default .negate difference) condition
    let module_ : Module := ⟨default, none,
      [.function default ⟨"f", [], [], none⟩ ⟨default, [.returnValue default (some product)]⟩], "a.smpl"⟩
    module_.Spellable ∧ ∃ text, module_.print = .ok text ∧
      ∀ file, ∃ module_', Module.ofSource file text = .ok module_' ∧ module_.unparen.same module_'.unparen = true := by
  intro name difference condition product module_
  have ha : (name "a").Spellable := .binding (by decide)
  have hb : (name "b").Spellable := .binding (by decide)
  have hc : (name "c").Spellable := .binding (by decide)
  have hproduct : product.Spellable :=
    .binary (.unary (.binary ha (.binary hb (.unary hc)))) (.binary (.binary ha hb) hc)
  have hreturn : (Stmt.returnValue default (some product)).Spellable :=
    .returnValue fun e he => Option.mem_some.1 he ▸ hproduct
  have hheader : Header.Spellable ⟨"f", [], [], none⟩ :=
    ⟨by decide, forall_mem_nil _, forall_mem_nil _, nofun⟩
  have hmodule : module_.Spellable :=
    ⟨nofun, forall_mem_singleton.2 (.function hheader (forall_mem_singleton.2 hreturn))⟩
  exact ⟨hmodule, hmodule.reads_unparen⟩

end Smpl
