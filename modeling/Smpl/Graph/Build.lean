import Smpl.Graph.Basic

namespace Smpl

/-- The items and the uses of a module that have been collected so far. -/
structure Collected where
  items : List Item
  uses : List Item
deriving Repr, Inhabited

namespace Collected

/-- Adds an item. A use may not be repeated; another item may take neither the name of an earlier
    one nor that of a primitive type. -/
def add (collected : Collected) (item : Item) : Except Failure Collected :=
  if item.isUse then
    match collected.uses.find? fun use => use.name = item.name with
    | some first => refuse (.duplicateDeclaration ("use " ++ item.name) (some first.loc) none) item.loc
    | none => .ok { collected with uses := collected.uses ++ [item] }
  else if primitiveNames.contains item.name then
    refuse (.duplicateDeclaration item.name none (some ("'" ++ item.name ++ "' is a builtin type"))) item.loc
  else
    match collected.items.find? fun other => other.name = item.name with
    | some first => refuse (.duplicateDeclaration item.name (some first.loc) none) item.loc
    | none => .ok { collected with items := collected.items ++ [item] }

end Collected

/-- Collects the items of a module. -/
def GraphModule.ofModule (isPrelude : Bool) (tree : Module) : Except Failure GraphModule := do
  let collected ← tree.items.foldlM Collected.add ⟨[], []⟩
  return {
    name := tree.knownName
    tree
    items := collected.items
    imports := collected.uses.map Item.name
    isPrelude }

namespace Graph

/-- Adds an input module, whose name must be new. -/
def addModule (graph : Graph) (tree : Module) : Except Failure Graph := do
  let module_ ← GraphModule.ofModule false tree
  match graph.find? module_.name with
  | some first => refuse (.duplicateModule module_.name (some first.tree.loc)) tree.loc
  | none => return { graph with modules := graph.modules ++ [module_] }

/-- Checks that a use names another module of the program. -/
def checkUse (graph : Graph) (module_ : GraphModule) (use : Item) : Except Failure Unit :=
  if use.name = module_.name then
    refuse
      (.unresolvedImport use.name module_.name []
        (some ("module '" ++ module_.name ++ "' cannot use itself"))) use.loc
  else if graph.contains use.name then .ok ()
  else
    refuse (.unresolvedImport use.name module_.name (graph.userModules.map (·.name)) none) use.loc

def checkUses (graph : Graph) (module_ : GraphModule) : Except Failure Unit :=
  (module_.tree.items.filter Item.isUse).forM (graph.checkUse module_)

/-- The graph with only a prelude, or with nothing. -/
def ofPrelude : Option Module → Except Failure Graph
  | none => .ok ⟨[], none⟩
  | some tree => do
    let module_ ← GraphModule.ofModule true tree
    return ⟨[module_], some module_.name⟩

/-- Assembles the modules of a program. -/
def build (trees : List Module) (prelude : Option Module) : Except Failure Graph := do
  let start ← ofPrelude prelude
  let graph ← trees.foldlM addModule start
  graph.modules.forM graph.checkUses
  return graph

end Graph

end Smpl
