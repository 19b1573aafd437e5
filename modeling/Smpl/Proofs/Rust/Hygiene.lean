import Smpl.Proofs.Rust.Lawful
import Smpl.Proofs.Rust.Supported

namespace Smpl

open List

/-- The names of the local declarations that can be seen from a place. -/
def Scope.names (scope : Scope) : List String :=
  scope.frames.flatten.map (·.name)

/-- The items that the text of a node names. -/
def TypedNode.items : TypedNode → List ItemName
  | .expr e => e.term.items
  | .type written => written.type.items
  | .unresolved _ | .stmt _ | .item _ | .plain _ _ => []

/-- The items that the types of a signature name. -/
def Signature.items (signature : Signature) : List ItemName :=
  signature.params.flatMap (·.2.items) ++ signature.result.items

namespace Rust

/-- The items that a line names. -/
def Line.items (line : Line) : List ItemName :=
  line.type?.toList.flatMap Ty.items ++ line.term?.toList.flatMap Term.items

/-- A text refers to an item from inside a module: by the bare name of an item of the module that is not hidden, or by
    a path from the module or from the one around all modules. -/
inductive Refers (moduleName : String) (hidden : List String) (name : ItemName) : String → Prop
  | bare : name.moduleName = moduleName → name.name ∉ hidden → Refers moduleName hidden name (identifier name.name)
  | inside : name.moduleName = moduleName → Refers moduleName hidden name ("self::" ++ identifier name.name)
  | outside : name.moduleName ≠ moduleName →
    Refers moduleName hidden name ("super::" ++ identifier name.moduleName ++ "::" ++ identifier name.name)

/-- At a place where some names are visible, all of them are known to hide items, and items are declared and referred
    to in spite of them. The text of a node depends on where it is written by the references to its items alone. -/
structure HygienicAt (graph : Graph) (setting : Setting) (visible : List String) (nodes : List TypedNode) : Prop where
  shadowed : ∀ name ∈ visible, name ∈ setting.shadowed
  refers : ∀ node ∈ nodes, ∀ name ∈ node.items,
    graph.DeclaresName name ∧ Refers setting.moduleName visible name (setting.itemPath name)
  expr : ∀ {e text spell}, .expr e ∈ nodes → setting.expr e = .ok text →
    (∀ name ∈ e.term.items, spell name = setting.itemPath name) → text = e.term.print spell
  type : ∀ {written loc text spell}, .type written ∈ nodes → setting.type loc written.type = .ok text →
    (∀ name ∈ written.type.items, spell name = setting.itemPath name) → text = written.type.rustText spell

/-- The text of a function refers to items in spite of all names that are visible where it does, in the header and at
    each statement of the body, and it refers to no other items than its nodes do. -/
structure Hygienic (registry : Registry) (moduleName : String) (header : Header TypedTypeExpr) (body : Block TypedStmt)
    (signature : Signature) : Prop where
  opening : HygienicAt registry.graph (functionSetting registry.graph.prelude moduleName signature body)
    (signature.typeParams.map (·.name) ++ header.params.map (·.name)) (headerNodes header)
  stands : ∀ {around stmt}, body.Stands around stmt →
    ∃ scope, scope.frames = framesAt (paramLocals header.params) around ∧
      (∀ node ∈ stmt.ownNodes, (registry.bodyContext moduleName signature).ChecksNode scope node) ∧
      HygienicAt registry.graph (functionSetting registry.graph.prelude moduleName signature body)
        (signature.typeParams.map (·.name) ++ scope.names) stmt.ownNodes
  covered : ∀ node ∈ blockNodes body, (∀ kind loc, node ≠ .plain kind loc) →
    ∃ around stmt, body.Stands around stmt ∧ node ∈ stmt.ownNodes
  text : ∀ {shadowed lines}, functionLines ⟨registry.graph.prelude, moduleName, shadowed⟩ signature body = .ok lines →
    lines = signature.rustHeader (functionSetting registry.graph.prelude moduleName signature body).itemPath ::
      (blockRustLines body).map (·.print (functionSetting registry.graph.prelude moduleName signature body).itemPath) ++
        ["\x7d"]
  headerItems : ∀ name ∈ signature.items, ∃ node ∈ headerNodes header, name ∈ node.items
  lineItems : ∀ line ∈ blockRustLines body, ∀ name ∈ line.items, ∃ node ∈ blockNodes body, name ∈ node.items

theorem Setting.refers_itemPath {setting : Setting} {visible : List String}
    (hvisible : ∀ name ∈ visible, name ∈ setting.shadowed) (name : ItemName) :
    Refers setting.moduleName visible name (setting.itemPath name) := by
  unfold itemPath
  split
  · next hmodule =>
    split
    · exact .inside hmodule
    · next hfree =>
      refine .bare hmodule fun hmem => hfree ?_
      exact contains_iff_mem.2 (hvisible _ hmem)
  · next hmodule => exact .outside hmodule

/-- A place is hygienic if all names that are visible there are known, and the items that its nodes name are
    declared. -/
theorem hygienicAt_of_declares {graph : Graph} {setting : Setting} {visible : List String} {nodes : List TypedNode}
    (hvisible : ∀ name ∈ visible, name ∈ setting.shadowed)
    (hdeclares : ∀ node ∈ nodes, ∀ name ∈ node.items, graph.DeclaresName name) :
    HygienicAt graph setting visible nodes where
  shadowed := hvisible
  refers node hnode name hname := ⟨hdeclares node hnode name hname, setting.refers_itemPath hvisible name⟩
  expr {e text spell} _ htext hspell := by
    rw [setting.gives_expr e text htext]
    exact e.term.print_congr fun name hname => (hspell name hname).symm
  type {written loc text spell} _ htext hspell := by
    rw [setting.gives_type written.type loc text htext]
    exact written.type.rustText_congr fun name hname => (hspell name hname).symm

end Rust

/-- The items that the text of a checked node names are declared. -/
theorem Context.ChecksNode.declares_items {ctx : Context} {signatures : List Signature}
    (htables : ctx.registry.Tabulates signatures)
    (htypeNames : ∀ entry ∈ ctx.typeNames, ∃ param, entry.2 = .param param)
    {scope : Scope} {node : TypedNode} (h : ctx.ChecksNode scope node) :
    ∀ name ∈ node.items, ctx.registry.graph.DeclaresName name := by
  cases node with
  | type written =>
    obtain ⟨type, htype⟩ := h
    have hnames : ∀ entry ∈ ctx.typeNames, ∃ param, entry.2 = .param param ∧ True := by
      intro entry hentry
      obtain ⟨param, hparam⟩ := htypeNames entry hentry
      exact ⟨param, hparam, trivial⟩
    have hlawful : written.type.Lawful ctx.registry.graph fun _ => True := htables.lawful_of_resolve hnames type htype
    exact hlawful.items
  | expr e =>
    obtain ⟨written, hwritten⟩ := h
    exact (lawful_term_of_expr htables htypeNames hwritten).declares_items
  | _ => exact forall_mem_nil _

namespace Block

variable {body : Block TypedStmt} {around : List (List TypedStmt)} {P : TypedNode → Prop}
  (hplain : ∀ {kind : NodeKind}, kind.isPlain = true → ∀ loc, P (.plain kind loc))
    (h : ∀ node ∈ blockNodes body, P node)
include hplain h

/-- What holds of all nodes of a body holds of those of a block inside it. -/
theorem Nested.forall_mem_nodes {block : Block TypedStmt} (hnested : body.Nested around block) :
    ∀ node ∈ blockNodes block, P node := by
  induction hnested with
  | body => exact h
  | @inside _ outer inner before after stmt _ hsplit hinner ih =>
    have hmem : stmt ∈ outer.statements := hsplit ▸ mem_append_right _ mem_cons_self
    have hstmt := (forall_mem_blockNodes hplain).1 ih stmt hmem
    exact ((TypedStmt.forall_mem_nodes_iff hplain).1 hstmt).2.2.2 inner hinner

/-- What holds of all nodes of a body holds of those of a statement in it. -/
theorem Stands.forall_mem_nodes {stmt : TypedStmt} (hstands : body.Stands around stmt) :
    ∀ node ∈ stmt.nodes, P node := by
  cases hstands with
  | mk hnested hsplit =>
    have hblock := hnested.forall_mem_nodes hplain h
    exact (forall_mem_blockNodes hplain).1 hblock stmt (hsplit ▸ mem_append_right _ mem_cons_self)

end Block

/-- What can be seen from a place in a body is a parameter or one of the bindings of the body. -/
theorem mem_of_mem_framesAt {params : List Local} {body : Block TypedStmt} {around : List (List TypedStmt)}
    {stmt : TypedStmt} (hstands : body.Stands around stmt) :
    ∀ frame ∈ framesAt params around, ∀ symbol ∈ frame, symbol ∈ params ∨ symbol ∈ blockBindings body := by
  intro frame hframe symbol hsymbol
  refine (hstands.mem_framesAt frame hframe symbol hsymbol).imp_right fun ⟨_, _, _, hplace⟩ => ?_
  have hbindings : ∀ node ∈ blockNodes body, ∀ symbol, node.declares? = some symbol → symbol ∈ blockBindings body := by
    intro node hnode symbol hdeclares
    rw [← filterMap_blockNodes]
    exact mem_filterMap.2 ⟨node, hnode, hdeclares⟩
  exact hplace.forall_mem_nodes (by rintro _ _ _ _ ⟨⟩) hbindings _ mem_cons_self _ rfl

/-- The types in a checked header were resolved where the body of its function is checked. -/
theorem Registry.checksNode_headerNodes {registry : Registry} {owner : String} {loc : Location}
    {header : Header TypeExpr}
    {checked : Header TypedTypeExpr} (h : registry.graph.checkHeader registry.types owner loc header = .ok checked)
    (scope : Scope) :
    ∀ node ∈ headerNodes checked,
      (registry.bodyContext owner (Signature.ofHeader owner loc false checked)).ChecksNode scope node := by
  obtain ⟨_, _, params, result, hparams, hresult, rfl⟩ := Graph.checkHeader_eq_ok_iff.1 h
  refine forall_mem_append.2 ⟨forall_mem_membersNodes (fun _ _ => trivial) rfl fun member hmember => ?_, ?_⟩
  · obtain ⟨_, _, type, htype, rfl⟩ := TypeScope.exists_of_mem_members hparams hmember
    exact Context.checksNode_of_resolve _ htype
  · obtain ⟨name, typeParams, _, written⟩ := header
    cases written with
    | none =>
      cases hresult
      exact forall_mem_nil _
    | some type =>
      obtain ⟨part, hpart, rfl⟩ := TypeScope.resolveOption_some_eq_ok_iff.1 hresult
      exact Context.checksNode_of_resolve type hpart

namespace Rust

/-- The types of a signature are those in its header. -/
theorem exists_node_of_mem_items {owner : String} {loc : Location} {header : Header TypedTypeExpr} :
    ∀ name ∈ (Signature.ofHeader owner loc false header).items, ∃ node ∈ headerNodes header, name ∈ node.items := by
  have htype : ∀ type : TypedTypeExpr, TypedNode.type type ∈ type.nodes := by
    intro type
    cases type <;> exact mem_cons_self
  refine forall_mem_append.2 ⟨fun name hname => ?_, fun name hname => ?_⟩
  · obtain ⟨_, hentry, hname⟩ := mem_flatMap.1 hname
    obtain ⟨param, hparam, rfl⟩ := mem_map.1 hentry
    refine ⟨.type param.type, mem_append_left _ (mem_flatMap.2 ⟨param, hparam, ?_⟩), hname⟩
    exact mem_cons_of_mem _ (htype param.type)
  · obtain ⟨_, _, _, result⟩ := header
    cases result with
    | none => cases hname
    | some type => exact ⟨.type type, mem_append_right _ (htype type), hname⟩

/-- The items that the lines of a body name are those that its nodes name. -/
theorem exists_node_of_mem_line {body : Block TypedStmt} :
    ∀ line ∈ blockRustLines body, ∀ name ∈ line.items, ∃ node ∈ blockNodes body, name ∈ node.items := by
  have hholds : ∀ line ∈ blockRustLines body, line.Holds
      (fun term => ∀ name ∈ term.items, ∃ node ∈ blockNodes body, name ∈ node.items)
      (fun type => ∀ name ∈ type.items, ∃ node ∈ blockNodes body, name ∈ node.items) := by
    refine Block.holds_rustLines (fun _ => id) fun node hnode => ?_
    cases node with
    | expr e => exact fun name hname => ⟨_, hnode, hname⟩
    | type written => exact fun name hname => ⟨_, hnode, hname⟩
    | _ => trivial
  intro line hline
  obtain ⟨hterms, htypes⟩ := hholds line hline
  refine forall_mem_append.2 ⟨fun name hname => ?_, fun name hname => ?_⟩
  · obtain ⟨type, htype, hname⟩ := mem_flatMap.1 hname
    exact htypes type (Option.mem_toList.1 htype) name hname
  · obtain ⟨term, hterm, hname⟩ := mem_flatMap.1 hname
    exact hterms term (Option.mem_toList.1 hterm) name hname

end Rust

namespace Program

variable {trees : List Module} {prelude : Option Module} {program : Program}

/-- In the text of every function of an accepted program, items are referred to in spite of all names that are visible
    where they are. -/
theorem hygienic_of_ofModules (hprogram : ofModules trees prelude = .ok program) {module_ : TypedModule}
    (hmodule : module_ ∈ program.modules) {loc : Location} {header : Header TypedTypeExpr} {body : Block TypedStmt}
    {signature : Signature} (hitem : TypedItem.function loc header body signature ∈ module_.items) :
    Rust.Hygienic program.registry module_.name header body signature := by
  obtain ⟨_, ⟨signatures, htables⟩, hmodules⟩ := spec_of_ofModules hprogram
  obtain ⟨owner, _, hname, written, _, hchecks⟩ := Registry.exists_checksItem hmodules hmodule hitem
  rw [← hname]
  cases hchecks with
  | function hheader hbody =>
    have hdeclares : ∀ {scope node}, (program.registry.bodyContext owner.name
          (Signature.ofHeader owner.name loc false header)).ChecksNode scope node →
        ∀ name ∈ node.items, program.registry.graph.DeclaresName name := by
      intro scope node hnode
      exact hnode.declares_items htables Registry.exists_param_of_mem_typeNames
    have hparams : header.params.map (·.name) = (Signature.ofHeader owner.name loc false header).params.map (·.1) := by
      rw [Signature.ofHeader, map_map]
      rfl
    refine ⟨?_, fun {around stmt} hstands => ?_, body.exists_own_of_mem_nodes, fun htext => ?_, ?_, ?_⟩
    · refine Rust.hygienicAt_of_declares (fun name hmem => mem_append_left _ (hparams ▸ hmem)) fun node hnode => ?_
      exact hdeclares (Registry.checksNode_headerNodes hheader .empty node hnode)
    · obtain ⟨scope, hframes, hnodes, _⟩ :=
        Context.exists_scope_of_stands hbody hstands (Registry.annotates_paramLocals hheader)
      refine ⟨scope, hframes, hnodes, Rust.hygienicAt_of_declares ?_ fun node hnode => hdeclares (hnodes node hnode)⟩
      refine forall_mem_append.2 ⟨fun name hmem => mem_append_left _ (mem_append_left _ hmem), ?_⟩
      refine forall_mem_map.2 fun symbol hsymbol => ?_
      obtain ⟨frame, hframe, hsymbol⟩ := mem_flatten.1 hsymbol
      rcases mem_of_mem_framesAt hstands frame (hframes ▸ hframe) symbol hsymbol with hparam | hbinding
      · obtain ⟨param, hmem, rfl⟩ := mem_map.1 hparam
        refine mem_append_left _ (mem_append_right _ ?_)
        exact hparams ▸ mem_map_of_mem hmem
      · exact mem_append_right _ (mem_map_of_mem hbinding)
    · exact Rust.gives_functionLines program.registry.graph.prelude owner.name _ _ body _ htext
    · exact Rust.exists_node_of_mem_items
    · exact Rust.exists_node_of_mem_line

/-- A parameter has the name of a function, and a binding that of a struct. -/
theorem hygienic_of_ofModules_shadowing :
    ∃ geo app program module_ loc header body signature,
      Module.ofSource "geo" "mod geo; fn size(n: int) -> int {return n;}" = .ok geo ∧
      Module.ofSource "app"
        ("mod app; struct Q {n: int} fn once(n: int) -> int {return n;} fn twice(n: int) -> int {return n + n;} " ++
          "fn run(type T)(twice: T, n: int) -> int \x7blet q: Q = init Q {n: n}; if n < 1 " ++
          "{let Q: int = app::twice(q.n); return geo::size(Q);} return once(n);\x7d") =
        .ok app ∧
      ofModules [geo, app] none = .ok program ∧ module_ ∈ program.modules ∧
      TypedItem.function loc header body signature ∈ module_.items ∧
      Rust.itemLines program.registry.structs ⟨none, module_.name, []⟩ (.function loc header body signature) = .ok
        ["", "    pub fn run<T: Clone>(mut twice: T, mut n: i64) -> i64 \x7b",
          "        let mut q: self::Q = self::Q \x7b n: n \x7d;", "        if n < 1 \x7b",
          "            let mut Q: i64 = self::twice(q.n);", "            return super::geo::size(Q);", "        \x7d",
          "        return once(n);", "    \x7d"] ∧
      Rust.Hygienic program.registry module_.name header body signature := by
  simp only [exists_and_left]
  refine exists_ok₃ (p := fun _ _ program => program.modules.any fun module_ => module_.items.any fun item =>
    !item.exprs.isEmpty && (Rust.itemLines program.registry.structs ⟨none, module_.name, []⟩ item).toOption.any (· =
      ["", "    pub fn run<T: Clone>(mut twice: T, mut n: i64) -> i64 \x7b",
        "        let mut q: self::Q = self::Q \x7b n: n \x7d;", "        if n < 1 \x7b",
        "            let mut Q: i64 = self::twice(q.n);", "            return super::geo::size(Q);", "        \x7d",
        "        return once(n);", "    \x7d"])) (by decide +kernel) fun geo app program _ _ hprogram hall => ?_
  obtain ⟨module_, hmodule, hall⟩ := any_eq_true.1 hall
  obtain ⟨item, hitem, hall⟩ := any_eq_true.1 hall
  obtain ⟨hexprs, hall⟩ := Bool.and_eq_true_iff.1 hall
  cases item with
  | function loc header body signature =>
    obtain ⟨lines, hlines, heq⟩ := exists_eq_ok_of_any hall
    rw [of_decide_eq_true heq] at hlines
    exact ⟨module_, hmodule, loc, header, body, signature, hitem, hlines, hygienic_of_ofModules hprogram hmodule hitem⟩
  | _ => cases hexprs

end Program

end Smpl
