import Smpl.Graph.Build
import Smpl.Proofs.Relocate.Outcome

namespace Smpl

open List

variable (move : Location → Location)

/-- Moves an item that is given with the name of its module. -/
def relocateOwned (owned : String × Item) : String × Item :=
  (owned.1, owned.2.relocate move)

def GraphModule.relocate (module_ : GraphModule) : GraphModule where
  name := module_.name
  tree := module_.tree.relocate move
  items := module_.items.map (Item.relocate move)
  imports := module_.imports
  isPrelude := module_.isPrelude

/-- Moves everything in the modules of a program. -/
def Graph.relocate (graph : Graph) : Graph where
  modules := graph.modules.map (GraphModule.relocate move)
  prelude := graph.prelude

def Collected.relocate (collected : Collected) : Collected where
  items := collected.items.map (Item.relocate move)
  uses := collected.uses.map (Item.relocate move)

variable {move}

theorem find?_name_relocate (items : List Item) (name : String) :
    (items.map (Item.relocate move)).find? (fun item => item.name = name) =
      (items.find? fun item => item.name = name).map (Item.relocate move) := by
  rw [find?_map]
  simp only [Function.comp_def, Item.name_relocate]

@[simp] theorem Module.knownName_relocate (module_ : Module) : (module_.relocate move).knownName = module_.knownName :=
  rfl

namespace GraphModule

@[simp] theorem name_relocate (module_ : GraphModule) : (module_.relocate move).name = module_.name := rfl

theorem item?_relocate (module_ : GraphModule) (name : String) :
    (module_.relocate move).item? name = (module_.item? name).map (Item.relocate move) :=
  find?_name_relocate module_.items name

theorem declares_relocate (module_ : GraphModule) (name : String) :
    (module_.relocate move).declares name = module_.declares name := by
  rw [declares, declares, item?_relocate, Option.isSome_map]

theorem itemNames_relocate (module_ : GraphModule) : (module_.relocate move).itemNames = module_.itemNames := by
  rw [itemNames, itemNames, relocate, map_map]
  exact map_congr_left fun item _ => Item.name_relocate item

end GraphModule

namespace Graph

variable (graph : Graph)

theorem find?_relocate (name : String) :
    (graph.relocate move).find? name = (graph.find? name).map (GraphModule.relocate move) := by
  rw [find?, find?, relocate, find?_map]
  rfl

@[simp] theorem contains_relocate (name : String) :
    (graph.relocate move).contains name = graph.contains name := by
  rw [contains, contains, find?_relocate, Option.isSome_map]

theorem userModules_relocate :
    (graph.relocate move).userModules = graph.userModules.map (GraphModule.relocate move) := by
  rw [userModules, userModules, relocate, filter_map]
  rfl

theorem map_name_userModules_relocate :
    (graph.relocate move).userModules.map (·.name) = graph.userModules.map (·.name) := by
  rw [userModules_relocate, map_map]
  rfl

theorem get_relocate (name : String) :
    (graph.relocate move).get name = relocateOutcome move (GraphModule.relocate move) (graph.get name) := by
  rw [get, get, find?_relocate]
  cases graph.find? name <;> rfl

theorem preludeFor?_relocate (viewer : String) :
    (graph.relocate move).preludeFor? viewer = (graph.preludeFor? viewer).map (GraphModule.relocate move) := by
  rw [preludeFor?, preludeFor?, relocate]
  cases graph.prelude with
  | none => rfl
  | some prelude =>
    by_cases hself : prelude = viewer
    · simp only [if_pos hself, Option.map_none]
    · simp only [if_neg hself]
      exact find?_relocate graph prelude

/-- The modules that a module uses, moved. -/
theorem filterMap_find?_relocate (names : List String) :
    names.filterMap (graph.relocate move).find? = (names.filterMap graph.find?).map (GraphModule.relocate move) := by
  rw [map_filterMap]
  exact congrArg (List.filterMap · names) (funext (find?_relocate graph))

theorem providers_relocate (module_ : GraphModule) (name : String) :
    (graph.relocate move).providers (module_.relocate move) name =
      (graph.providers module_ name).map (GraphModule.relocate move) := by
  have hdeclares : (fun provider : GraphModule => provider.declares name) ∘ GraphModule.relocate move =
      fun provider => provider.declares name := funext fun provider => provider.declares_relocate name
  rw [providers, providers, GraphModule.relocate, filterMap_find?_relocate, filter_map, hdeclares]

/-- A name means the same item in moved modules. -/
theorem resolve_relocate (viewer name : String) (loc : Option Location) :
    (graph.relocate move).resolve viewer name (loc.map move) =
      relocateOutcome move (Option.map (relocateOwned move)) (graph.resolve viewer name loc) := by
  rw [resolve, resolve]
  refine bind_relocate (get_relocate graph viewer) fun module_ => ?_
  rw [GraphModule.item?_relocate, providers_relocate, preludeFor?_relocate]
  cases module_.item? name with
  | some item => rfl
  | none =>
    match graph.providers module_ name with
    | [] =>
      cases graph.preludeFor? viewer with
      | none => rfl
      | some prelude =>
        simp only [Option.map_none, Option.map_some, Option.bind_some, map_nil, GraphModule.item?_relocate]
        cases prelude.item? name <;> rfl
    | [provider] =>
      simp only [Option.map_none, map_cons, map_nil, GraphModule.item?_relocate]
      cases provider.item? name <;> rfl
    | first :: second :: others =>
      simp only [Option.map_none, map_cons, map_map]
      rfl

theorem resolvePath_relocate (viewer : String) (path : Path) (loc : Option Location) :
    (graph.relocate move).resolvePath viewer path (loc.map move) =
      relocateOutcome move (Option.map (relocateOwned move)) (graph.resolvePath viewer path loc) := by
  rw [resolvePath, resolvePath]
  match path.modules with
  | [] => exact resolve_relocate graph viewer path.name loc
  | [target] =>
    simp only [find?_relocate]
    cases graph.find? target with
    | none => rfl
    | some module_ =>
      simp only [Option.map_some, GraphModule.item?_relocate]
      cases module_.item? path.name <;> rfl
  | _ :: _ :: _ => rfl

theorem visibleNames_relocate (viewer : String) :
    (graph.relocate move).visibleNames viewer = relocateOutcome move id (graph.visibleNames viewer) := by
  rw [visibleNames, visibleNames]
  refine bind_relocate (get_relocate graph viewer) fun module_ => ?_
  have hprelude : ((graph.relocate move).prelude.bind (graph.relocate move).find?).toList =
      (graph.prelude.bind graph.find?).toList.map (GraphModule.relocate move) := by
    rw [relocate]
    cases graph.prelude with
    | none => rfl
    | some prelude =>
      change ((graph.relocate move).find? prelude).toList = _
      rw [find?_relocate, Option.toList_map]
      rfl
  have hnames : (fun m : GraphModule => m.itemNames) ∘ GraphModule.relocate move = fun m => m.itemNames :=
    funext GraphModule.itemNames_relocate
  simp only [GraphModule.relocate, filterMap_find?_relocate, hprelude]
  rw [← GraphModule.relocate, ← map_cons, ← map_append, flatMap_map]
  simp only [Function.comp_def] at hnames
  rw [hnames]
  rfl

end Graph

namespace Collected

theorem add_relocate (collected : Collected) (item : Item) :
    (collected.relocate move).add (item.relocate move) =
      relocateOutcome move (Collected.relocate move) (collected.add item) := by
  rw [add, add, Item.isUse_relocate, Item.name_relocate, Item.loc_relocate]
  by_cases huse : item.isUse = true
  · simp only [if_pos huse, relocate, find?_name_relocate]
    cases collected.uses.find? fun use => use.name = item.name with
    | none => simp [relocateOutcome, relocate]
    | some first =>
      simp only [Option.map_some, Item.loc_relocate]
      rfl
  · by_cases hprimitive : primitiveNames.contains item.name = true
    · simp only [if_neg huse, if_pos hprimitive]
      rfl
    · simp only [if_neg huse, if_neg hprimitive, relocate, find?_name_relocate]
      cases collected.items.find? fun other => other.name = item.name with
      | none => simp [relocateOutcome, relocate]
      | some first =>
        simp only [Option.map_some, Item.loc_relocate]
        rfl

end Collected

theorem GraphModule.ofModule_relocate (isPrelude : Bool) (tree : Module) :
    GraphModule.ofModule isPrelude (tree.relocate move) =
      relocateOutcome move (GraphModule.relocate move) (GraphModule.ofModule isPrelude tree) := by
  rw [GraphModule.ofModule, GraphModule.ofModule]
  have hcollected : (tree.relocate move).items.foldlM Collected.add ⟨[], []⟩ =
      relocateOutcome move (Collected.relocate move) (tree.items.foldlM Collected.add ⟨[], []⟩) :=
    foldlM_relocate Collected.add_relocate tree.items ⟨[], []⟩
  refine bind_relocate hcollected fun collected => ?_
  simp [relocateOutcome, GraphModule.relocate, Collected.relocate]

namespace Graph

variable (graph : Graph)

theorem addModule_relocate (tree : Module) :
    (graph.relocate move).addModule (tree.relocate move) =
      relocateOutcome move (Graph.relocate move) (graph.addModule tree) := by
  rw [addModule, addModule]
  refine bind_relocate (GraphModule.ofModule_relocate false tree) fun module_ => ?_
  rw [GraphModule.name_relocate, find?_relocate]
  cases graph.find? module_.name with
  | none => simp [relocateOutcome, relocate]
  | some first => rfl

theorem checkUse_relocate (module_ : GraphModule) (use : Item) :
    (graph.relocate move).checkUse (module_.relocate move) (use.relocate move) =
      relocateOutcome move id (graph.checkUse module_ use) := by
  rw [checkUse, checkUse, Item.name_relocate, Item.loc_relocate, GraphModule.name_relocate, contains_relocate,
    map_name_userModules_relocate]
  by_cases hself : use.name = module_.name
  · rw [if_pos hself, if_pos hself]
    rfl
  · rw [if_neg hself, if_neg hself]
    cases graph.contains use.name <;> rfl

/-- The imports of moved modules are right in the same cases. -/
theorem checkUses_relocate (module_ : GraphModule) :
    (graph.relocate move).checkUses (module_.relocate move) = relocateOutcome move id (graph.checkUses module_) := by
  have huses : (module_.relocate move).tree.items.filter Item.isUse =
      (module_.tree.items.filter Item.isUse).map (Item.relocate move) := by
    rw [GraphModule.relocate, Module.relocate, filter_map]
    exact congrArg _ (filter_congr fun item _ => Item.isUse_relocate item)
  rw [checkUses, checkUses, huses]
  exact forM_relocate fun use _ => checkUse_relocate graph module_ use

theorem ofPrelude_relocate (prelude : Option Module) :
    ofPrelude (prelude.map (Module.relocate move)) = relocateOutcome move (Graph.relocate move)
      (ofPrelude prelude) := by
  cases prelude with
  | none => rfl
  | some tree =>
    rw [Option.map_some, ofPrelude, ofPrelude]
    exact bind_relocate (GraphModule.ofModule_relocate true tree) fun module_ => rfl

/-- The modules of a program are assembled whatever the places in them are, and the places come along. -/
theorem build_relocate (trees : List Module) (prelude : Option Module) :
    build (trees.map (Module.relocate move)) (prelude.map (Module.relocate move)) =
      relocateOutcome move (Graph.relocate move) (build trees prelude) := by
  rw [build, build]
  refine bind_relocate (ofPrelude_relocate prelude) fun start => ?_
  refine bind_relocate (foldlM_relocate addModule_relocate trees start) fun graph => ?_
  refine bind_relocate (forM_relocate fun module_ _ => checkUses_relocate graph module_) fun _ => ?_
  rfl

end Graph

end Smpl
