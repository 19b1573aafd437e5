import Smpl.Diagnostic.Basic
import Smpl.Syntax.Tree
import Smpl.Types.Basic

namespace Smpl

/-- The name of a module whose file does not give it one. -/
def defaultModuleName : String := "main"

/-- The name under which a module is known in a program. -/
def Module.knownName (module_ : Module) : String :=
  match module_.name with
  | none => defaultModuleName
  | some name => if name = "" then defaultModuleName else name

/-- One module of a program: its tree, its items other than `use`s, and the names of the modules it
    uses, all in the order of the file. -/
structure GraphModule where
  name : String
  tree : Module
  items : List Item
  imports : List String
  isPrelude : Bool
deriving Repr, Inhabited

namespace GraphModule

def item? (module_ : GraphModule) (name : String) : Option Item :=
  module_.items.find? fun item => item.name = name

def declares (module_ : GraphModule) (name : String) : Bool :=
  (module_.item? name).isSome

def itemNames (module_ : GraphModule) : List String :=
  module_.items.map Item.name

end GraphModule

/-- The modules of a program, the prelude first, and the name of the prelude. -/
structure Graph where
  modules : List GraphModule
  prelude : Option String
deriving Repr, Inhabited

namespace Graph

def find? (graph : Graph) (name : String) : Option GraphModule :=
  graph.modules.find? fun module_ => module_.name = name

def contains (graph : Graph) (name : String) : Bool :=
  (graph.find? name).isSome

/-- The modules that came from input files. -/
def userModules (graph : Graph) : List GraphModule :=
  graph.modules.filter fun module_ => !module_.isPrelude

/-- The module of that name, which the caller takes for granted. -/
def get (graph : Graph) (name : String) : Except Failure GraphModule :=
  match graph.find? name with
  | some module_ => .ok module_
  | none => .error (.defect (.missingKey (some name)))

/-- The module of the prelude as seen from another module. -/
def preludeFor? (graph : Graph) (viewer : String) : Option GraphModule :=
  match graph.prelude with
  | some prelude => if prelude = viewer then none else graph.find? prelude
  | none => none

/-- The used modules that have an item of that name. -/
def providers (graph : Graph) (module_ : GraphModule) (name : String) : List GraphModule :=
  (module_.imports.filterMap graph.find?).filter (·.declares name)

/-- Finds the item that a bare name means inside a module: the module's own, then one of the modules
    it uses, then one of the prelude. Two used modules that both have one make the name ambiguous. -/
def resolve (graph : Graph) (viewer name : String) (loc : Option Location) :
    Except Failure (Option (String × Item)) := do
  let module_ ← graph.get viewer
  match module_.item? name with
  | some item => return some (viewer, item)
  | none =>
    match graph.providers module_ name with
    | [] => return (graph.preludeFor? viewer).bind fun prelude => (prelude.item? name).map (prelude.name, ·)
    | [provider] => return (provider.item? name).map (provider.name, ·)
    | providers =>
      .error (.diagnostic
        { cause := .ambiguousReference name (providers.map (·.name)), location := loc })

/-- Finds the item that a path means inside a module. -/
def resolvePath (graph : Graph) (viewer : String) (path : Path) (loc : Option Location) :
    Except Failure (Option (String × Item)) :=
  match path.modules with
  | [] => graph.resolve viewer path.name loc
  | [target] =>
    match graph.find? target with
    | none => .error (.diagnostic { cause := .undefinedSymbol target [] "module", location := loc })
    | some module_ => .ok ((module_.item? path.name).map (module_.name, ·))
  | _ => .error (.diagnostic { cause := .undefinedSymbol path.text [] "path", location := loc })

/-- The bare item names that can be used inside a module, each once, in order. -/
def visibleNames (graph : Graph) (viewer : String) : Except Failure (List String) := do
  let module_ ← graph.get viewer
  let used := module_.imports.filterMap graph.find?
  let prelude := (graph.prelude.bind graph.find?).toList
  return sortedNames ((module_ :: used ++ prelude).flatMap (·.itemNames)).eraseDups

end Graph

end Smpl
