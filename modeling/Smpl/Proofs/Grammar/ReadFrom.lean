import Smpl.Proofs.Grammar.Row

namespace Smpl

open List

variable {file : String}

/-- A written type as it is read from a file: its nodes are of known kinds and located in the file, and
    array types have elements. -/
inductive TypeExpr.ReadFrom (file : String) : TypeExpr → Prop
  | named {loc : Location} {path : Path} {args : List TypeExpr} :
    loc.file = file → path.isMissing = false → (∀ type ∈ args, type.ReadFrom file) →
      ReadFrom file (.named loc path args)
  | array {loc : Location} {element : TypeExpr} {length : Int} :
    loc.file = file → element.ReadFrom file → 0 < length → ReadFrom file (.array loc element length)
  | function {loc : Location} {params : List TypeExpr} {result : Option TypeExpr} :
    loc.file = file → (∀ type ∈ params, type.ReadFrom file) → (∀ type ∈ result, type.ReadFrom file) →
    ReadFrom file (.function loc params result)

/-- An expression as it is read from a file. -/
inductive Expr.ReadFrom (file : String) : Expr → Prop
  | literal {loc : Location} {value : Literal} : loc.file = file → ReadFrom file (.literal loc value)
  | binding {loc : Location} {path : Path} :
    loc.file = file → path.isMissing = false → ReadFrom file (.binding loc path)
  | field {loc : Location} {root : String} {fields : List String} :
    loc.file = file → ReadFrom file (.field loc root fields)
  | call {loc : Location} {path : Path} {typeArgs : List TypeExpr} {args : List Expr} :
    loc.file = file → path.isMissing = false → (∀ type ∈ typeArgs, type.ReadFrom file) →
    (∀ e ∈ args, e.ReadFrom file) → ReadFrom file (.call loc path typeArgs args)
  | init {loc : Location} {path : Path} {fields : List (FieldInit Expr)} :
    loc.file = file → path.isMissing = false → (∀ init ∈ fields, init.loc.file = file) →
    (∀ init ∈ fields, init.value.ReadFrom file) → ReadFrom file (.init loc path fields)
  | unary {loc : Location} {op : UnaryOp} {operand : Expr} :
    loc.file = file → operand.ReadFrom file → ReadFrom file (.unary loc op operand)
  | binary {loc : Location} {op : BinaryOp} {left right : Expr} :
    loc.file = file → left.ReadFrom file → right.ReadFrom file → ReadFrom file (.binary loc op left right)
  | paren {loc : Location} {inner : Expr} :
    loc.file = file → inner.ReadFrom file → ReadFrom file (.paren loc inner)

theorem Expr.ReadFrom.loc {e : Expr} (h : e.ReadFrom file) : e.loc.file = file := by
  cases h <;> assumption

/-- A statement as it is read from a file. -/
inductive Stmt.ReadFrom (file : String) : Stmt → Prop
  | block {body : Block Stmt} :
    body.loc.file = file → (∀ stmt ∈ body.statements, stmt.ReadFrom file) → ReadFrom file (.block body)
  | letBinding {loc : Location} {name : String} {type : TypeExpr} {value : Expr} :
    loc.file = file → type.ReadFrom file → value.ReadFrom file → ReadFrom file (.letBinding loc name type value)
  | assign {loc : Location} {target : String} {fields : List String} {value : Expr} :
    loc.file = file → value.ReadFrom file → ReadFrom file (.assign loc target fields value)
  | ifChain {loc : Location} {branches : List (Branch Expr Stmt)} {otherwise : Option (Block Stmt)} :
    loc.file = file → (∀ branch ∈ branches, branch.loc.file = file ∧ branch.body.loc.file = file) →
    (∀ branch ∈ branches, branch.condition.ReadFrom file) →
    (∀ branch ∈ branches, ∀ stmt ∈ branch.body.statements, stmt.ReadFrom file) →
    (∀ body ∈ otherwise, body.loc.file = file) →
    (∀ body ∈ otherwise, ∀ stmt ∈ body.statements, stmt.ReadFrom file) → ReadFrom file (.ifChain loc branches otherwise)
  | whileLoop {loc : Location} {condition : Expr} {body : Block Stmt} :
    loc.file = file → condition.ReadFrom file → body.loc.file = file →
    (∀ stmt ∈ body.statements, stmt.ReadFrom file) → ReadFrom file (.whileLoop loc condition body)
  | returnValue {loc : Location} {value : Option Expr} :
    loc.file = file → (∀ e ∈ value, e.ReadFrom file) → ReadFrom file (.returnValue loc value)
  | breakLoop {loc : Location} : loc.file = file → ReadFrom file (.breakLoop loc)
  | continueLoop {loc : Location} : loc.file = file → ReadFrom file (.continueLoop loc)
  | expression {loc : Location} {value : Expr} :
    loc.file = file → value.ReadFrom file → ReadFrom file (.expression loc value)

structure Block.ReadFrom (file : String) (body : Block Stmt) : Prop where
  loc : body.loc.file = file
  statements : ∀ stmt ∈ body.statements, stmt.ReadFrom file

structure Branch.ReadFrom (file : String) (branch : Branch Expr Stmt) : Prop where
  loc : branch.loc.file = file
  condition : branch.condition.ReadFrom file
  body : branch.body.ReadFrom file

structure Member.ReadFrom (file : String) (member : Member TypeExpr) : Prop where
  loc : member.loc.file = file
  type : member.type.ReadFrom file

structure Header.ReadFrom (file : String) (header : Header TypeExpr) : Prop where
  params : ∀ param ∈ header.params, param.ReadFrom file
  result : ∀ type ∈ header.result, type.ReadFrom file

/-- An item as it is read from a file. -/
inductive Item.ReadFrom (file : String) : Item → Prop
  | use {loc : Location} {name : String} : loc.file = file → ReadFrom file (.use loc name)
  | struct {loc : Location} {name : String} {fields : List (Member TypeExpr)} :
    loc.file = file → (∀ field ∈ fields, field.ReadFrom file) → ReadFrom file (.struct loc name fields)
  | opaqueType {loc : Location} {name : String} {typeParams : List String} :
    loc.file = file → ReadFrom file (.opaqueType loc name typeParams)
  | function {loc : Location} {header : Header TypeExpr} {body : Block Stmt} :
    loc.file = file → header.ReadFrom file → body.ReadFrom file → ReadFrom file (.function loc header body)
  | builtin {loc : Location} {header : Header TypeExpr} :
    loc.file = file → header.ReadFrom file → ReadFrom file (.builtin loc header)

theorem Item.ReadFrom.loc {item : Item} (h : item.ReadFrom file) : item.loc.file = file := by
  cases h <;> assumption

structure Module.ReadFrom (file : String) (module_ : Module) : Prop where
  loc : module_.loc.file = file
  items : ∀ item ∈ module_.items, item.ReadFrom file

namespace Node

open Grammar

/-- A node as it is read from a file. -/
def ReadFrom (file : String) : Node → Prop
  | .ofModule module_ => module_.ReadFrom file
  | .ofItem item => item.ReadFrom file
  | .ofMember _ member => member.ReadFrom file
  | .ofType type => type.ReadFrom file
  | .ofBlock body => body.ReadFrom file
  | .ofStmt stmt => stmt.ReadFrom file
  | .ofBranch branch => branch.ReadFrom file
  | .ofExpr e => e.ReadFrom file
  | .ofInit init => init.loc.file = file ∧ init.value.ReadFrom file

/-- The nodes right below a node are read from the file. -/
def BelowReadFrom (file : String) (node : Node) : Prop :=
  ∀ child ∈ node.children, child.ReadFrom file

variable {node : Node} {ts rest : Tokens}

theorem forall_mem_of_map {α : Type} {as : List α} (f : α → Node) (h : ∀ child ∈ as.map f, child.ReadFrom file) :
    ∀ a ∈ as, (f a).ReadFrom file :=
  forall_mem_map.1 h

theorem forall_mem_of_toList {α : Type} {a : Option α} (f : α → Node)
    (h : ∀ child ∈ a.toList.map f, child.ReadFrom file) : ∀ b ∈ a, (f b).ReadFrom file :=
  fun b hb => forall_mem_of_map f h b (Option.mem_toList.2 hb)

theorem isMissing_of_route {loc : Location} {path : Path} (h : Route (loc, path) ts rest) : path.isMissing = false := by
  cases h
  rfl

/-- A type was read from a file if it stands there and all nodes below it were read from there. -/
theorem readFrom_of_type {type : TypeExpr} (h : Written type ts rest) (hloc : type.loc.file = file)
    (hbelow : BelowReadFrom file (.ofType type)) : type.ReadFrom file := by
  cases h with
  | named hroute => exact .named hloc (isMissing_of_route hroute) (forall_mem_of_map .ofType hbelow)
  | array _ _ _ _ hpositive => exact .array hloc (hbelow _ mem_cons_self) (Int.natCast_pos.2 hpositive)
  | function =>
    obtain ⟨hparams, hresult⟩ := forall_mem_append.1 hbelow
    exact .function hloc (forall_mem_of_map .ofType hparams) (forall_mem_of_toList .ofType hresult)

theorem readFrom_of_init {loc : Location} {path : Path} {fields : List (FieldInit Expr)} (hloc : loc.file = file)
    (hpath : path.isMissing = false) (hbelow : BelowReadFrom file (.ofExpr (.init loc path fields))) :
    (Expr.init loc path fields).ReadFrom file := by
  have hfields := forall_mem_of_map .ofInit hbelow
  exact .init hloc hpath (fun init hinit => (hfields init hinit).1) fun init hinit => (hfields init hinit).2

/-- So was an expression. -/
theorem readFrom_of_expression {bare : Bool} {tier : Nat} {e : Expr} (h : Expression bare tier e ts rest)
    (hloc : e.loc.file = file) (hbelow : BelowReadFrom file (.ofExpr e)) : e.ReadFrom file := by
  -- a looser tier only passes on what a tighter one reads
  generalize hn : 7 - tier = n
  induction n using Nat.strongRecOn generalizing tier with
  | ind n ih =>
    cases h with
    | operand htier he => exact ih _ (by omega) he rfl
    | binary =>
      exact .binary hloc (hbelow _ mem_cons_self) (hbelow _ (mem_cons_of_mem _ mem_cons_self))
    | unary | twoReferences => exact .unary hloc (hbelow _ mem_cons_self)
    | integer | float | string | trueValue | falseValue => exact .literal hloc
    | paren => exact .paren hloc (hbelow _ mem_cons_self)
    | keywordInit _ hroute | bareInit hroute => exact readFrom_of_init hloc (isMissing_of_route hroute) hbelow
    | call hroute =>
      obtain ⟨htypes, hargs⟩ := forall_mem_append.1 hbelow
      exact .call hloc (isMissing_of_route hroute) (forall_mem_of_map .ofType htypes) (forall_mem_of_map .ofExpr hargs)
    | field => exact .field hloc
    | binding hroute => exact .binding hloc (isMissing_of_route hroute)

/-- So was a statement. -/
theorem readFrom_of_statement {stmt : Stmt} (h : Statement stmt ts rest) (hloc : stmt.loc.file = file)
    (hbelow : BelowReadFrom file (.ofStmt stmt)) : stmt.ReadFrom file := by
  cases h with
  | letBinding =>
    exact .letBinding hloc (hbelow _ mem_cons_self) (hbelow _ (mem_cons_of_mem _ mem_cons_self))
  | ifChain =>
    obtain ⟨hbranches, hotherwise⟩ := forall_mem_append.1 hbelow
    have hbranches := forall_mem_of_map .ofBranch hbranches
    have hotherwise := forall_mem_of_toList .ofBlock hotherwise
    exact .ifChain hloc (fun branch hbranch => ⟨(hbranches branch hbranch).loc, (hbranches branch hbranch).body.loc⟩)
      (fun branch hbranch => (hbranches branch hbranch).condition)
      (fun branch hbranch => (hbranches branch hbranch).body.statements)
      (fun body hbody => (hotherwise body hbody).loc) fun body hbody => (hotherwise body hbody).statements
  | whileLoop =>
    have hbody : Block.ReadFrom file _ := hbelow _ (mem_cons_of_mem _ mem_cons_self)
    exact .whileLoop hloc (hbelow _ mem_cons_self) hbody.loc hbody.statements
  | returnNothing => exact .returnValue hloc (by simp)
  | returnValue => exact .returnValue hloc (forall_mem_of_toList .ofExpr hbelow)
  | breakLoop => exact .breakLoop hloc
  | continueLoop => exact .continueLoop hloc
  | block => exact .block hloc (forall_mem_of_map .ofStmt hbelow)
  | assign => exact .assign hloc (hbelow _ mem_cons_self)
  | expression => exact .expression hloc (hbelow _ mem_cons_self)

theorem readFrom_of_header {header : Header TypeExpr} (h : ∀ child ∈ headerNodes header, child.ReadFrom file) :
    header.ReadFrom file := by
  obtain ⟨hparams, hresult⟩ := forall_mem_append.1 h
  exact ⟨forall_mem_of_map (.ofMember .parameter) hparams, forall_mem_of_toList .ofType hresult⟩

/-- So was an item. -/
theorem readFrom_of_declaration {item : Item} (h : Declaration item ts rest) (hloc : item.loc.file = file)
    (hbelow : BelowReadFrom file (.ofItem item)) : item.ReadFrom file := by
  cases h with
  | use => exact .use hloc
  | struct => exact .struct hloc (forall_mem_of_map (.ofMember .structField) hbelow)
  | opaqueType => exact .opaqueType hloc
  | function =>
    obtain ⟨hheader, hbody⟩ := forall_mem_append.1 hbelow
    exact .function hloc (readFrom_of_header hheader) (hbody _ mem_cons_self)
  | builtin => exact .builtin hloc (readFrom_of_header hbelow)

/-- One step up the tree: a node was read from a file if all nodes below it were. -/
theorem Reads.readFrom (h : node.Reads ts rest) (hloc : node.loc.file = file) (hbelow : BelowReadFrom file node) :
    node.ReadFrom file := by
  cases h with
  | item h => exact readFrom_of_declaration h hloc hbelow
  | member => exact ⟨hloc, hbelow _ mem_cons_self⟩
  | type h => exact readFrom_of_type h hloc hbelow
  | block => exact ⟨hloc, forall_mem_of_map .ofStmt hbelow⟩
  | stmt h => exact readFrom_of_statement h hloc hbelow
  | branch => exact ⟨hloc, hbelow _ mem_cons_self, hbelow _ (mem_cons_of_mem _ mem_cons_self)⟩
  | expr h => exact readFrom_of_expression h hloc hbelow
  | init => exact ⟨hloc, hbelow _ mem_cons_self⟩

/-- What is read from tokens of a file is read from the file. -/
theorem Part.readFrom (h : node.Part ts rest) (hts : ∀ token ∈ ts, token.location.file = file) :
    node.ReadFrom file := by
  induction node using Node.induct generalizing ts rest with
  | h node ih =>
    have hbelow : BelowReadFrom file node := by
      intro child hchild
      obtain ⟨t, t', hpart, hsuffix⟩ := h.row.exists_part (fun _ _ _ h => h.suffix) hchild
      exact ih child hchild hpart fun token hmem => hts token (hsuffix.mem hmem)
    cases h with
    | reads h =>
      obtain ⟨token, htoken, hloc⟩ := Option.map_eq_some_iff.1 h.start
      exact h.readFrom (hloc ▸ hts token (mem_of_mem_head? htoken)) hbelow
    | innerReference hop =>
      -- it stands one column further in the same file
      cases hop
      exact .unary (hts _ mem_cons_self) (hbelow _ mem_cons_self)

end Node

/-- A module that tokens of a file derive is read from that file. -/
theorem Grammar.SourceFile.readFrom {name : String} {stream : TokenStream} {module_ : Module}
    (h : SourceFile name stream module_) (htokens : ∀ token ∈ stream.tokens, token.location.file = file)
    (hfinish : stream.finish.file = file) : module_.ReadFrom file := by
  have hrow := h.row
  cases h with
  | mk =>
    constructor
    · cases htoken : stream.tokens with
      | nil => exact hfinish
      | cons token tokens => exact htokens token (htoken ▸ mem_cons_self)
    · intro item hitem
      obtain ⟨t, t', hpart, hsuffix⟩ := hrow.exists_part (fun _ _ _ h => h.suffix) (mem_map_of_mem hitem)
      exact hpart.readFrom fun token hmem => htokens token (hsuffix.mem hmem)

end Smpl
