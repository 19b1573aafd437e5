import Smpl.Proofs.Spelling.Decoration
import Smpl.Proofs.Spelling.Program

namespace Smpl

open List

section

variable (full : Bool)

theorem TypedExpr.isBinary_spelled (e : TypedExpr) : (e.spelled full).isBinary = e.isBinary := by
  cases e <;> rfl

theorem TypedExpr.isOperation_spelled (e : TypedExpr) : (e.spelled full).isOperation = e.isOperation := by
  cases e <;> rfl

mutual

theorem TypedExpr.showsInit_spelled : (e : TypedExpr) → (e.spelled full).showsInit = e.showsInit
  | .literal _ _ | .binding _ _ _ | .field _ _ _ _ | .init _ _ _ _ => rfl
  | .call loc callee typeArgs args target type => by
    rw [TypedExpr.spelled, TypedExpr.showsInit, TypedExpr.showsInit, anyShowsInit_spelledExprs args]
  | .unary loc op operand type => by
    rw [TypedExpr.spelled, TypedExpr.showsInit, TypedExpr.showsInit, operand.showsInit_spelled]
  | .binary loc op left right type => by
    rw [TypedExpr.spelled, TypedExpr.showsInit, TypedExpr.showsInit, left.showsInit_spelled, right.showsInit_spelled]
  | .paren loc inner => by
    rw [TypedExpr.spelled, TypedExpr.showsInit, TypedExpr.showsInit, inner.showsInit_spelled]

theorem anyShowsInit_spelledExprs : (exprs : List TypedExpr) →
    TypedExpr.anyShowsInit (spelledExprs full exprs) = TypedExpr.anyShowsInit exprs
  | [] => rfl
  | e :: exprs => by
    rw [spelledExprs, TypedExpr.anyShowsInit, TypedExpr.anyShowsInit, e.showsInit_spelled,
      anyShowsInit_spelledExprs exprs]

end

theorem TypedNode.declares?_spelled (node : TypedNode) : (node.spelled full).declares? = node.declares? := by
  cases node with
  | stmt stmt => cases stmt <;> rfl
  | _ => rfl

theorem blockBindings_spelledBlock (body : Block TypedStmt) :
    blockBindings (spelledBlock full body) = blockBindings body := by
  have hdeclares : TypedNode.declares? ∘ TypedNode.spelled full = TypedNode.declares? :=
    funext (TypedNode.declares?_spelled full)
  rw [← filterMap_blockNodes, blockNodes_spelled_of_mem full fun stmt _ => stmt.nodes_spelled full, filterMap_map,
    hdeclares, filterMap_blockNodes]

namespace Rust

theorem place?_spelled (e : TypedExpr) : place? (e.spelled full) = place? e := by
  cases e with
  | binding loc path referent => cases referent <;> rfl
  | _ => rfl

theorem operand_spelled (e : TypedExpr) (text : String) : operand (e.spelled full) text = operand e text := by
  rw [operand, operand, e.isBinary_spelled]

theorem unaryText_spelled (op : UnaryOp) (e : TypedExpr) (text : String) (type : Ty) :
    unaryText op (e.spelled full) text type = unaryText op e text type := by
  simp only [unaryText, operand_spelled, place?_spelled]

namespace Setting

variable (setting : Setting)

theorem builtinCall_spelled (loc : Location) (name : ItemName) (typeArgs : List Ty) (args : List TypedExpr)
    (texts : List String) :
    setting.builtinCall loc name typeArgs (spelledExprs full args) texts =
      setting.builtinCall loc name typeArgs args texts := by
  cases args with
  | nil => rfl
  | cons arg args =>
    unfold builtinCall
    cases texts <;> simp only [spelledExprs, arg.isOperation_spelled]

theorem call_spelled (loc : Location) (target : Referent) (typeArgs : List Ty) (args : List TypedExpr)
    (texts : List String) :
    setting.call loc target typeArgs (spelledExprs full args) texts = setting.call loc target typeArgs args texts := by
  cases target with
  | binding symbol => rfl
  | function signature => rw [call, call, builtinCall_spelled]

mutual

/-- The Rust text of an expression does not depend on how the paths in it are spelled. -/
theorem expr_spelled : (e : TypedExpr) → setting.expr (e.spelled full) = setting.expr e
  | .literal _ _ | .binding _ _ _ | .field _ _ _ _ => rfl
  | .call loc callee typeArgs args target type => by
    simp only [TypedExpr.spelled, expr, exprs_spelled args, map_type_spelledTypes, call_spelled]
  | .init loc path fields struct => by simp only [TypedExpr.spelled, expr, inits_spelled fields]
  | .unary loc op operand type => by
    simp only [TypedExpr.spelled, expr, expr_spelled operand, unaryText_spelled]
  | .binary loc op left right type => by
    simp only [TypedExpr.spelled, expr, expr_spelled left, expr_spelled right, operand_spelled]
  | .paren loc inner => by simp only [TypedExpr.spelled, expr, expr_spelled inner]

theorem exprs_spelled : (exprs : List TypedExpr) → setting.exprs (spelledExprs full exprs) = setting.exprs exprs
  | [] => rfl
  | e :: others => by simp only [spelledExprs, exprs, expr_spelled e, exprs_spelled others]

theorem inits_spelled : (inits : List (FieldInit TypedExpr)) →
    setting.inits (spelledInits full inits) = setting.inits inits
  | [] => rfl
  | ⟨loc, name, value⟩ :: others => by simp only [spelledInits, inits, expr_spelled value, inits_spelled others]

end

theorem condition_spelled (e : TypedExpr) : setting.condition (e.spelled full) = setting.condition e := by
  rw [condition, condition, expr_spelled, e.showsInit_spelled]

mutual

/-- The Rust text of a statement does not depend on how the paths in it are spelled. -/
theorem stmt_spelled : (stmt : TypedStmt) → setting.stmt (stmt.spelled full) = setting.stmt stmt
  | .block body => by simp only [TypedStmt.spelled, stmt, block_spelled body]
  | .letBinding symbol type value => by
    simp only [TypedStmt.spelled, stmt, TypedTypeExpr.type_spelled, expr_spelled]
  | .assign loc target fields value => by simp only [TypedStmt.spelled, stmt, expr_spelled]
  | .ifChain loc chain last => by
    simp only [TypedStmt.spelled, stmt, branches_spelled "" chain, otherwise_spelled last]
  | .whileLoop loc condition body => by simp only [TypedStmt.spelled, stmt, condition_spelled, block_spelled body]
  | .returnValue loc none => by simp only [TypedStmt.spelled, Option.map_none]
  | .returnValue loc (some value) => by simp only [TypedStmt.spelled, Option.map_some, stmt, expr_spelled]
  | .breakLoop loc | .continueLoop loc => by simp only [TypedStmt.spelled]
  | .expression loc value => by simp only [TypedStmt.spelled, stmt, expr_spelled]

theorem block_spelled : (body : Block TypedStmt) → setting.block (spelledBlock full body) = setting.block body
  | ⟨loc, statements⟩ => by simp only [spelledBlock, block, stmts_spelled statements]

theorem stmts_spelled : (statements : List TypedStmt) →
    setting.stmts (spelledStmts full statements) = setting.stmts statements
  | [] => by simp only [spelledStmts]
  | first :: others => by simp only [spelledStmts, stmts, stmt_spelled first, stmts_spelled others]

theorem branches_spelled (opening : String) : (chain : List (Branch TypedExpr TypedStmt)) →
    setting.branches opening (spelledBranches full chain) = setting.branches opening chain
  | [] => by simp only [spelledBranches]
  | ⟨loc, decides, body⟩ :: others => by
    simp only [spelledBranches, branches, condition_spelled, block_spelled body, branches_spelled "\x7d else " others]

theorem otherwise_spelled : (last : Option (Block TypedStmt)) →
    setting.otherwise (spelledElse full last) = setting.otherwise last
  | none => by simp only [spelledElse]
  | some body => by simp only [spelledElse, otherwise, block_spelled body]

end

end Setting

/-- The Rust text of an item does not depend on how the paths in it are spelled. -/
theorem itemLines_spelled (structs : Table StructInfo) (setting : Setting) (item : TypedItem) :
    itemLines structs setting (item.spelled full) = itemLines structs setting item := by
  cases item with
  | function loc header body signature =>
    simp only [TypedItem.spelled, itemLines, functionLines, shadowedNames, blockBindings_spelledBlock,
      Setting.block_spelled]
  | _ => rfl

theorem forM_spelled (check : String → Location → Except Failure Unit) (members : List (Member TypedTypeExpr)) :
    (members.map (Member.spelled full)).forM (fun member => check member.name member.loc) =
      members.forM fun member => check member.name member.loc := by
  induction members with
  | nil => rfl
  | cons member members ih => rw [map_cons, List.forM, List.forM, ih, Member.spelled]

/-- Nor does it depend on that whether its names can be used. -/
theorem checkItemNames_spelled (item : TypedItem) : checkItemNames (item.spelled full) = checkItemNames item := by
  cases item with
  | struct loc name fields =>
    simp only [TypedItem.spelled, checkItemNames, TypedItem.name, TypedItem.loc,
      forM_spelled full (checkSpelling "field")]
  | function loc header body signature =>
    simp only [TypedItem.spelled, checkItemNames, TypedItem.name, TypedItem.loc, Header.spelled,
      forM_spelled full (checkName "parameter"), blockBindings_spelledBlock]
  | builtin loc header signature =>
    simp only [TypedItem.spelled, checkItemNames, TypedItem.name, TypedItem.loc, Header.spelled,
      forM_spelled full (checkName "parameter")]
  | use | eclipsed | opaqueType | other => rfl

theorem bind_eq_of_map_flatten {α β ε : Type} {first second : Except ε (List (List α))}
    {next : List (List α) → Except ε β} (h : first.map List.flatten = second.map List.flatten)
    (hnext : ∀ lists lists', lists.flatten = lists'.flatten → next lists = next lists') :
    (first >>= next) = second >>= next := by
  cases first with
  | error failure =>
    cases second with
    | error failure' =>
      cases h
      rfl
    | ok lists' => cases h
  | ok lists =>
    cases second with
    | error failure' => cases h
    | ok lists' => exact hnext lists lists' (Except.ok.inj h)

/-- A respelled module has the same Rust lines. -/
theorem moduleLines_spelled {registry registry' : Registry} (hstructs : registry'.structs = registry.structs)
    (hprelude : registry'.graph.prelude = registry.graph.prelude) (module_ : TypedModule) :
    moduleLines registry' (module_.spelled full) = moduleLines registry module_ := by
  have huse : ∀ item ∈ module_.items, (!(full && item.isUse)) = false →
      itemLines registry.structs ⟨registry.graph.prelude, module_.name, []⟩ item = .ok [] := by
    intro item _ hkept
    cases item with
    | use => rfl
    | _ => simp [TypedItem.isUse] at hkept
  have hitems : itemLines registry.structs ⟨registry.graph.prelude, module_.name, []⟩ ∘ TypedItem.spelled full =
      itemLines registry.structs ⟨registry.graph.prelude, module_.name, []⟩ := funext (itemLines_spelled full _ _)
  have hlines := map_flatten_mapM_filter huse
  rw [moduleLines, moduleLines, TypedModule.spelled, mapM_map, hstructs, hprelude, hitems]
  exact bind_eq_of_map_flatten hlines fun kept all hflatten => by rw [hflatten]

/-- A name that modules and items can have in Rust text. -/
def CanName (name : String) : Prop :=
  name ∉ unspellable ∧ name ∉ reserved

theorem checkName_eq_ok_iff {kind name : String} {loc : Location} {u : Unit} :
    checkName kind name loc = .ok u ↔ CanName name := by
  unfold checkName checkSpelling CanName
  by_cases hspelling : name ∈ unspellable
  · simp [hspelling, cannotLower, bind, Except.bind]
  · by_cases hreserved : name ∈ reserved
    · simp [hspelling, hreserved, cannotLower, bind, Except.bind]
    · simp [hspelling, hreserved, bind, Except.bind, pure, Except.pure]

end Rust

end

/-- No module whose uses are gone used a prelude of a name that Rust text cannot have. -/
def Program.UsesNamed (full : String → Bool) (program : Program) : Prop :=
  ∀ module_ ∈ program.userModules, full module_.name = true → ∀ loc name, TypedItem.use loc name ∈ module_.items →
    program.graph.prelude = some name → Rust.CanName name

namespace Rust

theorem checkItemNames_use_eq_ok_iff {loc : Location} {name : String} :
    checkItemNames (.use loc name) = .ok () ↔ CanName name := by
  have hcheck : checkItemNames (.use loc name) = (do checkName "item" name loc; return ()) := rfl
  rw [hcheck, bind_eq_ok_iff]
  constructor
  · rintro ⟨_, hname, _⟩
    exact checkName_eq_ok_iff.1 hname
  · exact fun hname => ⟨(), checkName_eq_ok_iff.2 hname, rfl⟩

/-- The names in a program can be used after its paths are spelled exactly if they could be before, the
    name of a used prelude apart. -/
theorem checkModuleNames_spelled {program : Program} {trees : List Module} {prelude : Option Module}
    {first : Option TypedModule} {others : List TypedModule} (h : program.Reads trees prelude first others)
    (hassembles : Graph.Assembles trees prelude) (hgraph : program.graph = Graph.ofTrees trees prelude)
    (full : String → Bool) :
    (∀ module_ ∈ program.userModules, checkModuleNames module_ = .ok ()) ↔
      (∀ module_ ∈ (program.spelled full).userModules, checkModuleNames module_ = .ok ()) ∧ program.UsesNamed full := by
  simp only [Program.userModules_spelled, forall_mem_map, checkModuleNames_eq_ok_iff]
  constructor
  · intro hnames
    refine ⟨fun module_ hmodule => ⟨(hnames module_ hmodule).1, fun item' hitem' => ?_⟩,
      fun module_ hmodule _ loc name huse _ =>
      checkItemNames_use_eq_ok_iff.1 ((hnames module_ hmodule).2 _ huse)⟩
    obtain ⟨item, hitem, rfl⟩ := mem_map.1 hitem'
    rw [checkItemNames_spelled]
    exact (hnames module_ hmodule).2 item (mem_filter.1 hitem).1
  · rintro ⟨hnames, huses⟩ module_ hmodule
    refine ⟨(hnames module_ hmodule).1, fun item hitem => ?_⟩
    by_cases hkept : (!(full module_.name && item.isUse)) = true
    · rw [← checkItemNames_spelled (full module_.name)]
      exact (hnames module_ hmodule).2 _ (mem_map_of_mem (mem_filter.2 ⟨hitem, hkept⟩))
    · cases item with
      | use loc name =>
        have hfull : full module_.name = true := by simpa [TypedItem.isUse] using hkept
        refine checkItemNames_use_eq_ok_iff.2 ?_
        -- The name of a module of the input is checked where the module is; that of the prelude is not.
        rcases h.exists_used hassembles (mem_filter.1 hmodule).1 hitem with hprelude | ⟨used, hused, rfl⟩
        · exact huses module_ hmodule hfull loc name hitem (hgraph ▸ hprelude)
        · exact checkName_eq_ok_iff.1 (hnames used hused).1
      | _ => simp [TypedItem.isUse] at hkept

/-- A respelled program has the same Rust text. -/
theorem crateLines_spelled {program program' : Program} {full : String → Bool}
    (hmodules : program'.modules = (program.spelled full).modules) (hentry : program'.entry = program.entry)
    (hstructs : program'.registry.structs = program.registry.structs)
    (hprelude : program'.graph.prelude = program.graph.prelude)
    (hnames : ∀ module_ ∈ program.userModules, checkModuleNames module_ = .ok ())
    (hnames' : ∀ module_ ∈ program'.userModules, checkModuleNames module_ = .ok ()) (emitEntry : Bool) :
    crateLines program' emitEntry = crateLines program emitEntry := by
  have huser : program'.userModules = program.userModules.map fun module_ => module_.spelled (full module_.name) := by
    rw [← Program.userModules_spelled, Program.userModules, hmodules, Program.userModules]
  have hlines : program'.userModules.mapM (moduleLines program'.registry) =
      program.userModules.mapM (moduleLines program.registry) := by
    rw [huser, mapM_map]
    exact congrArg (program.userModules.mapM ·) (funext fun module_ => moduleLines_spelled _ hstructs hprelude module_)
  have hchecked : program.userModules.forM checkModuleNames = .ok () := Graph.forM_eq_ok_iff.2 hnames
  have hchecked' : program'.userModules.forM checkModuleNames = .ok () := Graph.forM_eq_ok_iff.2 hnames'
  rw [crateLines, crateLines, hchecked, hchecked', hstructs, hlines, hentry]

end Rust

end Smpl
