import Smpl.Proofs.Traverse
import Smpl.Syntax.Node

namespace Smpl

open List

/-- Anything in a tree that has a place in the text. Members are struct fields or parameters. -/
inductive Node
  | ofModule (module_ : Module)
  | ofItem (item : Item)
  | ofMember (kind : NodeKind) (member : Member TypeExpr)
  | ofType (type : TypeExpr)
  | ofBlock (body : Block Stmt)
  | ofStmt (stmt : Stmt)
  | ofBranch (branch : Branch Expr Stmt)
  | ofExpr (e : Expr)
  | ofInit (init : FieldInit Expr)

namespace Node

def kind : Node → NodeKind
  | .ofModule _ => .module
  | .ofItem item => item.kind
  | .ofMember kind _ => kind
  | .ofType type => type.kind
  | .ofBlock _ => .block
  | .ofStmt stmt => stmt.kind
  | .ofBranch _ => .branch
  | .ofExpr e => e.kind
  | .ofInit _ => .fieldInit

def loc : Node → Location
  | .ofModule module_ => module_.loc
  | .ofItem item => item.loc
  | .ofMember _ member => member.loc
  | .ofType type => type.loc
  | .ofBlock body => body.loc
  | .ofStmt stmt => stmt.loc
  | .ofBranch branch => branch.loc
  | .ofExpr e => e.loc
  | .ofInit init => init.loc

/-- The nodes that a header of a function holds. -/
def headerNodes (header : Header TypeExpr) : List Node :=
  header.params.map (.ofMember .parameter) ++ header.result.toList.map .ofType

/-- The nodes right below a node. -/
def children : Node → List Node
  | .ofModule module_ => module_.items.map .ofItem
  | .ofItem (.struct _ _ fields) => fields.map (.ofMember .structField)
  | .ofItem (.function _ header body) => headerNodes header ++ [.ofBlock body]
  | .ofItem (.builtin _ header) => headerNodes header
  | .ofItem (.use ..) | .ofItem (.opaqueType ..) | .ofItem (.other ..) => []
  | .ofMember _ member => [.ofType member.type]
  | .ofType (.named _ _ args) => args.map .ofType
  | .ofType (.array _ element _) => [.ofType element]
  | .ofType (.function _ params result) => params.map .ofType ++ result.toList.map .ofType
  | .ofType (.unknown _) => []
  | .ofBlock body => body.statements.map .ofStmt
  | .ofStmt (.block body) => body.statements.map .ofStmt
  | .ofStmt (.letBinding _ _ type value) => [.ofType type, .ofExpr value]
  | .ofStmt (.assign _ _ _ value) => [.ofExpr value]
  | .ofStmt (.ifChain _ branches otherwise) => branches.map .ofBranch ++ otherwise.toList.map .ofBlock
  | .ofStmt (.whileLoop _ condition body) => [.ofExpr condition, .ofBlock body]
  | .ofStmt (.returnValue _ value) => value.toList.map .ofExpr
  | .ofStmt (.expression _ value) => [.ofExpr value]
  | .ofStmt (.breakLoop _) | .ofStmt (.continueLoop _) | .ofStmt (.unknown _) => []
  | .ofBranch branch => [.ofExpr branch.condition, .ofBlock branch.body]
  | .ofExpr (.call _ _ typeArgs args) => typeArgs.map .ofType ++ args.map .ofExpr
  | .ofExpr (.init _ _ fields) => fields.map .ofInit
  | .ofExpr (.unary _ _ operand) => [.ofExpr operand]
  | .ofExpr (.binary _ _ left right) => [.ofExpr left, .ofExpr right]
  | .ofExpr (.paren _ inner) => [.ofExpr inner]
  | .ofExpr (.operatorless _ operands) => operands.map .ofExpr
  | .ofExpr (.literal ..) | .ofExpr (.binding ..) | .ofExpr (.field ..) | .ofExpr (.unknown _) => []
  | .ofInit init => [.ofExpr init.value]

/-- The walk through the tree below a node. -/
def walk (stop : NodeKind → Bool) : Node → List Visit
  | .ofModule module_ => module_.walk stop
  | .ofItem item => item.walk stop
  | .ofMember kind member => visit stop kind member.loc (member.type.walk stop)
  | .ofType type => type.walk stop
  | .ofBlock body => walkBlock stop body
  | .ofStmt stmt => stmt.walk stop
  | .ofBranch branch => visit stop .branch branch.loc (branch.condition.walk stop ++ walkBlock stop branch.body)
  | .ofExpr e => e.walk stop
  | .ofInit init => visit stop .fieldInit init.loc (init.value.walk stop)

variable (stop : NodeKind → Bool)

theorem walkTypes_eq_flatMap (types : List TypeExpr) : walkTypes stop types = types.flatMap (TypeExpr.walk stop) :=
  eq_flatMap_of_cons rfl fun _ _ => rfl

theorem walkResult_eq_flatMap (result : Option TypeExpr) :
    walkResult stop result = result.toList.flatMap (TypeExpr.walk stop) := by
  cases result <;> simp [walkResult]

theorem walkExprs_eq_flatMap (exprs : List Expr) : walkExprs stop exprs = exprs.flatMap (Expr.walk stop) :=
  eq_flatMap_of_cons rfl fun _ _ => rfl

theorem walkInits_eq_flatMap (inits : List (FieldInit Expr)) :
    walkInits stop inits = inits.flatMap fun init => visit stop .fieldInit init.loc (init.value.walk stop) :=
  eq_flatMap_of_cons rfl fun _ _ => rfl

theorem walkBlock_eq (body : Block Stmt) :
    walkBlock stop body = visit stop .block body.loc (body.statements.flatMap (Stmt.walk stop)) := by
  have hstmts (stmts : List Stmt) : walkStmts stop stmts = stmts.flatMap (Stmt.walk stop) :=
    eq_flatMap_of_cons (by rw [walkStmts]) fun _ _ => by rw [walkStmts]
  cases body
  rw [walkBlock, hstmts]

theorem walkBranches_eq_flatMap (branches : List (Branch Expr Stmt)) :
    walkBranches stop branches = branches.flatMap fun branch =>
      visit stop .branch branch.loc (branch.condition.walk stop ++ walkBlock stop branch.body) :=
  eq_flatMap_of_cons (by rw [walkBranches]) fun _ _ => by rw [walkBranches]

theorem walkElse_eq_flatMap (otherwise : Option (Block Stmt)) :
    walkElse stop otherwise = otherwise.toList.flatMap (walkBlock stop) := by
  cases otherwise <;> simp [walkElse]

theorem walkHeader_eq_flatMap (header : Header TypeExpr) :
    header.walk stop = (headerNodes header).flatMap (walk stop) := by
  simp [Header.walk, walkMembers, walkResult_eq_flatMap, headerNodes, flatMap_map, walk]

/-- A walk meets a node, and then walks through the nodes right below it, one after the other. -/
theorem walk_eq (node : Node) : node.walk stop = visit stop node.kind node.loc (node.children.flatMap (walk stop)) := by
  cases node with
  | ofModule module_ => simp [walk, Module.walk, kind, loc, children, flatMap_map]
  | ofItem item =>
    cases item <;>
      simp [walk, Item.walk, kind, loc, children, Item.kind, Item.loc, walkMembers, walkHeader_eq_flatMap,
        flatMap_map]
  | ofMember => simp [walk, kind, loc, children]
  | ofType type =>
    cases type <;>
      simp [walk, TypeExpr.walk, kind, loc, children, TypeExpr.kind, TypeExpr.loc, walkTypes_eq_flatMap,
        walkResult_eq_flatMap, flatMap_map]
  | ofBlock body => simp [walk, walkBlock_eq, kind, loc, children, flatMap_map]
  | ofStmt stmt =>
    cases stmt with
    | returnValue _ value => cases value <;> simp [walk, Stmt.walk, kind, loc, children, Stmt.kind, Stmt.loc]
    | ifChain =>
      simp [walk, Stmt.walk, kind, loc, children, Stmt.kind, Stmt.loc, walkBranches_eq_flatMap, walkElse_eq_flatMap,
        flatMap_map]
    | _ => simp [walk, Stmt.walk, walkBlock_eq, kind, loc, children, Stmt.kind, Stmt.loc, flatMap_map]
  | ofBranch => simp [walk, kind, loc, children]
  | ofExpr e =>
    cases e <;>
      simp [walk, Expr.walk, kind, loc, children, Expr.kind, Expr.loc, walkTypes_eq_flatMap, walkExprs_eq_flatMap,
        walkInits_eq_flatMap, flatMap_map]
  | ofInit => simp [walk, kind, loc, children]

/-- The visit of a node on a walk that goes on below it. -/
def seen (node : Node) : Visit :=
  ⟨node.kind, node.loc, false⟩

/-- The walk that stops nowhere. -/
abbrev fullWalk : Node → List Visit :=
  walk fun _ => false

theorem fullWalk_eq (node : Node) : node.fullWalk = node.seen :: node.children.flatMap fullWalk :=
  walk_eq _ node

/-- Induction over a tree: the nodes right below a node have the property already. -/
@[elab_as_elim] theorem induct {motive : Node → Prop}
    (h : ∀ node : Node, (∀ child ∈ node.children, motive child) → motive node) (node : Node) : motive node := by
  -- the walk below a child is shorter
  generalize hn : node.fullWalk.length = n
  induction n using Nat.strongRecOn generalizing node with
  | ind n ih =>
    apply h
    intro child hchild
    have hle := (sublist_flatten_of_mem (mem_map_of_mem (f := fullWalk) hchild)).length_le
    rw [fullWalk_eq, length_cons, flatMap_def] at hn
    exact ih _ (by omega) child rfl

/-- The node that is reached by the places of the nodes on the way to it, each among its siblings. -/
def at? : Node → List Nat → Option Node
  | node, [] => some node
  | node, i :: address => node.children[i]?.bind (·.at? address)

/-- The addresses at which there is a node, in the order in which each comes before those below it and
    those stand in order, with the visits of the nodes there. -/
structure Enumerates (find : List Nat → Option Node) (addresses : List (List Nat)) (visits : List Visit) : Prop where
  sorted : addresses.Pairwise (· < ·)
  found : ∀ address, address ∈ addresses ↔ ∃ node, find address = some node
  visited : addresses.map (fun address => (find address).map seen) = visits.map some

/-- The node at an address below one of some siblings. -/
def below? (nodes : List Node) : List Nat → Option Node
  | [] => none
  | i :: address => nodes[i]?.bind (·.at? address)

/-- The address with one more sibling in front. -/
def bump : List Nat → List Nat
  | [] => []
  | i :: address => (i + 1) :: address

theorem below?_cons_bump (node : Node) (nodes : List Node) (address : List Nat) :
    below? (node :: nodes) (bump address) = below? nodes address := by
  cases address with
  | nil => rfl
  | cons => simp [bump, below?]

theorem bump_lt_bump {address address' : List Nat} (h : address < address') : bump address < bump address' := by
  cases address with
  | nil =>
    cases address' with
    | nil => exact h
    | cons => exact nil_lt_cons _ _
  | cons i address =>
    cases address' with
    | nil => exact absurd h (not_lt_nil _)
    | cons j address' =>
      rw [bump, bump, cons_lt_cons_iff]
      exact (cons_lt_cons_iff.1 h).imp Nat.succ_lt_succ fun h => ⟨congrArg _ h.1, h.2⟩

/-- Siblings are enumerated one after the other. -/
theorem Enumerates.cons {node : Node} {nodes : List Node} {as bs : List (List Nat)} {visits visits' : List Visit}
    (has : Enumerates node.at? as visits) (hbs : Enumerates (below? nodes) bs visits') :
    Enumerates (below? (node :: nodes)) (as.map (0 :: ·) ++ bs.map bump) (visits ++ visits') := by
  constructor
  · refine pairwise_append.2 ⟨pairwise_map.2 (has.sorted.imp ?_),
      pairwise_map.2 (hbs.sorted.imp bump_lt_bump), ?_⟩
    · intro a b hlt
      exact cons_lt_cons_iff.2 (.inr ⟨rfl, hlt⟩)
    · intro a ha b hb
      obtain ⟨a, _, rfl⟩ := mem_map.1 ha
      obtain ⟨b, hmem, rfl⟩ := mem_map.1 hb
      obtain ⟨_, hfound⟩ := (hbs.found b).1 hmem
      cases b with
      | nil => cases hfound
      | cons i b => exact cons_lt_cons_iff.2 (.inl (Nat.succ_pos i))
  · intro address
    rw [mem_append, mem_map, mem_map]
    constructor
    · rintro (⟨a, ha, rfl⟩ | ⟨b, hb, rfl⟩)
      · exact (has.found a).1 ha
      · rw [below?_cons_bump]
        exact (hbs.found b).1 hb
    · rintro ⟨found, hfound⟩
      cases address with
      | nil => cases hfound
      | cons i address =>
        cases i with
        | zero => exact .inl ⟨address, (has.found address).2 ⟨found, hfound⟩, rfl⟩
        | succ i =>
          rw [← bump, below?_cons_bump] at hfound
          exact .inr ⟨i :: address, (hbs.found _).2 ⟨found, hfound⟩, rfl⟩
  · rw [map_append, map_map, map_map, map_append, ← has.visited, ← hbs.visited]
    congr 1
    apply map_congr_left
    intro address _
    rw [Function.comp_apply, below?_cons_bump]

/-- If the walk from each node has addresses, so have the walks in turn. -/
theorem exists_enumerates_below {nodes : List Node}
    (h : ∀ node ∈ nodes, ∃ addresses, Enumerates node.at? addresses node.fullWalk) :
    ∃ addresses, Enumerates (below? nodes) addresses (nodes.flatMap fullWalk) := by
  induction nodes with
  | nil =>
    refine ⟨[], .nil, ?_, rfl⟩
    intro address
    cases address <;> simp [below?]
  | cons node nodes ih =>
    obtain ⟨⟨as, has⟩, hothers⟩ := forall_mem_cons.1 h
    obtain ⟨bs, hbs⟩ := ih hothers
    exact ⟨_, has.cons hbs⟩

/-- A walk meets the node at every address once, in the order of the addresses. -/
theorem exists_enumerates (node : Node) : ∃ addresses, Enumerates node.at? addresses node.fullWalk := by
  induction node using induct with
  | h node ih =>
    obtain ⟨addresses, hbelow⟩ := exists_enumerates_below ih
    have hne (address : List Nat) (hmem : address ∈ addresses) : ∃ i rest, address = i :: rest := by
      obtain ⟨_, hfound⟩ := (hbelow.found address).1 hmem
      cases address with
      | nil => cases hfound
      | cons i rest => exact ⟨i, rest, rfl⟩
    refine ⟨[] :: addresses, ?_, ?_, ?_⟩
    · refine pairwise_cons.2 ⟨?_, hbelow.sorted⟩
      intro address hmem
      obtain ⟨i, rest, rfl⟩ := hne address hmem
      exact nil_lt_cons i rest
    · intro address
      cases address with
      | nil => exact ⟨fun _ => ⟨node, rfl⟩, fun _ => mem_cons_self⟩
      | cons i rest =>
        rw [mem_cons, hbelow.found]
        simp [at?, below?]
    · rw [map_cons, fullWalk_eq, map_cons, ← hbelow.visited]
      congr 1
      apply map_congr_left
      intro address hmem
      obtain ⟨i, rest, rfl⟩ := hne address hmem
      rfl

end Node

end Smpl
