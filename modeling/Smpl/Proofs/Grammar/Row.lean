import Smpl.Proofs.Grammar.SourceFile
import Smpl.Proofs.Syntax.Address

namespace Smpl

open List Grammar

/-- The node is what a rule of the grammar reads. -/
inductive Node.Reads : Node → Tokens → Tokens → Prop
  | item {item : Item} {ts rest : Tokens} : Declaration item ts rest → Reads (.ofItem item) ts rest
  | member {kind : NodeKind} {member : Member TypeExpr} {ts rest : Tokens} :
    Declared member ts rest → Reads (.ofMember kind member) ts rest
  | type {type : TypeExpr} {ts rest : Tokens} : Written type ts rest → Reads (.ofType type) ts rest
  | block {body : Block Stmt} {ts rest : Tokens} : Braced Statement body ts rest → Reads (.ofBlock body) ts rest
  | stmt {stmt : Stmt} {ts rest : Tokens} : Statement stmt ts rest → Reads (.ofStmt stmt) ts rest
  | branch {word : Keyword} {branch : Branch Expr Stmt} {ts rest : Tokens} :
    Guarded word (Braced Statement) branch ts rest → Reads (.ofBranch branch) ts rest
  | expr {bare : Bool} {tier : Nat} {e : Expr} {ts rest : Tokens} :
    Expression bare tier e ts rest → Reads (.ofExpr e) ts rest
  | init {init : FieldInit Expr} {ts rest : Tokens} :
    Init (Expression true 1) init ts rest → Reads (.ofInit init) ts rest

/-- The node is read from the tokens, by a rule of its own or as the inner of the two references that one
    mark stands for. -/
inductive Node.Part : Node → Tokens → Tokens → Prop
  | reads {node : Node} {ts rest : Tokens} : node.Reads ts rest → Part node ts rest
  | innerReference {bare : Bool} {e : Expr} {loc : Location} {ts t rest : Tokens} :
    Takes (.symbol .and) loc ts t → Expression bare 6 e t rest →
    Part (.ofExpr (.unary (loc.right 1) .reference e)) ts rest

/-- Nodes that are read one after the other, with tokens of no node between them. If the row is `solid`, there is a node
    or a token in it. -/
inductive Row (part : Node → Tokens → Tokens → Prop) : Bool → List Node → Tokens → Tokens → Prop
  | nil {rest : Tokens} : Row part false [] rest rest
  | skip {solid : Bool} {nodes : List Node} {token : Token} {ts rest : Tokens} :
    Row part solid nodes ts rest → Row part true nodes (token :: ts) rest
  | cons {solid : Bool} {node : Node} {nodes : List Node} {ts t rest : Tokens} :
    part node ts t → Row part solid nodes t rest → Row part true (node :: nodes) ts rest
  | loose {nodes : List Node} {ts rest : Tokens} : Row part true nodes ts rest → Row part false nodes ts rest

section

variable {α : Type} {part : Node → Tokens → Tokens → Prop} {solid solid' : Bool} {nodes nodes' : List Node}
  {ts t rest : Tokens}

theorem Row.then (h : Row part solid nodes ts t) (h' : Row part solid' nodes' t rest) :
    Row part (solid || solid') (nodes ++ nodes') ts rest := by
  induction h with
  | nil => exact h'
  | skip _ ih => exact .skip (ih h')
  | cons hnode _ ih => exact .cons hnode (ih h')
  | loose _ ih =>
    cases solid' with
    | true => exact ih h'
    | false => exact .loose (ih h')

theorem Row.one {node : Node} (h : part node ts rest) : Row part true [node] ts rest :=
  .cons h .nil

/-- What a row leaves is an end of its tokens, if that is so for its nodes. -/
theorem Row.suffix (h : Row part solid nodes ts rest)
    (hpart : ∀ node ∈ nodes, ∀ ts rest, part node ts rest → rest <:+ ts) : rest <:+ ts := by
  induction h with
  | nil => exact suffix_rfl
  | skip _ ih => exact (ih hpart).trans (suffix_cons _ _)
  | cons hnode _ ih =>
    obtain ⟨hfirst, hothers⟩ := forall_mem_cons.1 hpart
    exact (ih hothers).trans (hfirst _ _ hnode)
  | loose _ ih => exact ih hpart

/-- A solid row takes a token. -/
theorem Row.length_le (h : Row part solid nodes ts rest)
    (hpart : ∀ node ∈ nodes, ∀ ts rest, part node ts rest → rest.length < ts.length) :
    rest.length + solid.toNat ≤ ts.length := by
  induction h with
  | nil => exact Nat.le_refl _
  | skip _ ih =>
    have := ih hpart
    simp only [length_cons, Bool.toNat_true]
    omega
  | cons hnode _ ih =>
    obtain ⟨hfirst, hothers⟩ := forall_mem_cons.1 hpart
    have := ih hothers
    have := hfirst _ _ hnode
    simp only [Bool.toNat_true]
    omega
  | loose _ ih => exact Nat.le_of_succ_le (ih hpart)

/-- Each node of a row is read from tokens of the row. -/
theorem Row.exists_part (h : Row part solid nodes ts rest) (hpart : ∀ node ts rest, part node ts rest → rest <:+ ts)
    {node : Node} (hmem : node ∈ nodes) : ∃ t t', part node t t' ∧ t <:+ ts := by
  induction h with
  | nil => cases hmem
  | skip _ ih =>
    obtain ⟨t, t', hnode, hsuffix⟩ := ih hmem
    exact ⟨t, t', hnode, hsuffix.trans (suffix_cons _ _)⟩
  | cons hfirst _ ih =>
    cases hmem with
    | head => exact ⟨_, _, hfirst, suffix_rfl⟩
    | tail _ hmem =>
      obtain ⟨t, t', hnode, hsuffix⟩ := ih hmem
      exact ⟨t, t', hnode, hsuffix.trans (hpart _ _ _ hfirst)⟩
  | loose _ ih => exact ih hmem

namespace Grammar

theorem Takes.row {kind : TokenKind} {loc : Location} (h : Takes kind loc ts rest) : Row part true [] ts rest := by
  cases h
  exact .skip .nil

theorem Names.row {separator : Symbol} {names : List String} (h : Names separator names ts rest) :
    Row part false [] ts rest := by
  induction h with
  | nil => exact .nil
  | cons hseparator hname _ ih => exact .loose (hseparator.row.then (hname.row.then ih))

theorem Route.row {start : Location × Path} (h : Route start ts rest) : Row part true [] ts rest := by
  cases h with
  | mk hfirst hnames => exact hfirst.row.then hnames.row

section

variable {element : Rule α} {below : α → List Node} {as : List α}
  (helement : ∀ ⦃a ts rest⦄, element a ts rest → Row part true (below a) ts rest)
include helement

theorem Elements.row (h : Elements element as ts rest) : Row part true (as.flatMap below) ts rest := by
  induction h with
  | last ha => simpa using helement ha
  | lastComma ha hcomma => simpa using (helement ha).then hcomma.row
  | more ha hcomma _ ih =>
    rw [flatMap_cons]
    exact (helement ha).then (hcomma.row.then ih)

theorem Listed.row (h : Listed element as ts rest) : Row part false (as.flatMap below) ts rest := by
  cases h with
  | none => exact .nil
  | some helements => exact .loose (helements.row helement)

theorem TypeList.row (h : TypeList element as ts rest) : Row part false (as.flatMap below) ts rest := by
  cases h with
  | none => exact .nil
  | some hopen hword helements hclose =>
    exact .loose (by simpa using hopen.row.then (hword.row.then ((helements.row helement).then hclose.row)))

theorem Arrow.row {a : Option α} (h : Arrow element a ts rest) : Row part false (a.toList.flatMap below) ts rest := by
  cases h with
  | none => exact .nil
  | some harrow ha => exact .loose (by simpa using harrow.row.then (helement ha))

theorem Many.row (h : Many element as ts rest) : Row part false (as.flatMap below) ts rest := by
  induction h with
  | nil => exact .nil
  | cons ha _ ih =>
    rw [flatMap_cons]
    exact .loose ((helement ha).then ih)

end

end Grammar

end

namespace Node

variable {node : Node} {ts rest : Tokens} {type : TypeExpr} {bare : Bool} {tier : Nat} {e : Expr} {body : Block Stmt}
  {word : Keyword} {stmt : Stmt} {loc : Location}

theorem row_of_written (h : Written type ts rest) : Row Part true [.ofType type] ts rest :=
  .one (.reads (.type h))

theorem row_of_expression (h : Expression bare tier e ts rest) : Row Part true [.ofExpr e] ts rest :=
  .one (.reads (.expr h))

theorem row_of_braced (h : Braced Statement body ts rest) : Row Part true [.ofBlock body] ts rest :=
  .one (.reads (.block h))

theorem row_of_typeArgs {types : List TypeExpr} (h : TypeList Written types ts rest) :
    Row Part false (types.map .ofType) ts rest := by
  rw [map_eq_flatMap]
  exact h.row fun _ _ _ h => row_of_written h

theorem row_of_result {result : Option TypeExpr} (h : Arrow Written result ts rest) :
    Row Part false (result.toList.map .ofType) ts rest := by
  rw [map_eq_flatMap]
  exact h.row fun _ _ _ h => row_of_written h

theorem row_of_members (kind : NodeKind) {members : List (Member TypeExpr)} (h : Listed Declared members ts rest) :
    Row Part false (members.map (.ofMember kind)) ts rest := by
  rw [map_eq_flatMap]
  exact h.row fun _ _ _ h => .one (.reads (.member h))

theorem row_of_inits {inits : List (FieldInit Expr)} (h : Listed (Init (Expression true 1)) inits ts rest) :
    Row Part false (inits.map .ofInit) ts rest := by
  rw [map_eq_flatMap]
  exact h.row fun _ _ _ h => .one (.reads (.init h))

theorem row_of_branches {branches : List (Branch Expr Stmt)}
    (h : Many (Guarded word (Braced Statement)) branches ts rest) :
      Row Part false (branches.map .ofBranch) ts rest := by
  rw [map_eq_flatMap]
  exact h.row fun _ _ _ h => .one (.reads (.branch h))

theorem row_of_otherwise {otherwise : Option (Block Stmt)} (h : Otherwise (Braced Statement) otherwise ts rest) :
    Row Part false (otherwise.toList.map .ofBlock) ts rest := by
  cases h with
  | none => exact .nil
  | some hword hbody => exact .loose (hword.row.then (row_of_braced hbody))

theorem row_of_typeParams {names : List String} (h : TypeList ParamName names ts rest) : Row Part false [] ts rest := by
  have hrow : Row Part false (names.flatMap fun _ => []) ts rest := h.row fun _ _ _ h => by
    cases h with
    | mk hname => exact hname.row
  rwa [flatMap_eq_nil_iff.2 fun _ _ => rfl] at hrow

/-- What is read for a header holds the nodes below it, in order. -/
theorem row_of_head {header : Header TypeExpr} (h : Head header ts rest) :
    Row Part true (headerNodes header) ts rest := by
  cases h with
  | mk hname htypes hopen hparams hclose hresult =>
    exact hname.row.then ((row_of_typeParams htypes).then (hopen.row.then
      ((row_of_members .parameter hparams).then (hclose.row.then (row_of_result hresult)))))

/-- What is read for an item holds the nodes below it, in order. -/
theorem row_of_declaration {item : Item} (h : Declaration item ts rest) :
    Row Part true (children (.ofItem item)) ts rest := by
  cases h with
  | use hword hname hend => exact hword.row.then (hname.row.then hend.row)
  | struct hword hname hopen hfields hclose =>
    simpa [children] using
      hword.row.then (hname.row.then (hopen.row.then ((row_of_members .structField hfields).then hclose.row)))
  | opaqueType hword hname htypes hend =>
    exact hword.row.then (hname.row.then ((row_of_typeParams htypes).then hend.row))
  | function hword hhead hbody => exact hword.row.then ((row_of_head hhead).then (row_of_braced hbody))
  | builtin hword hfn hhead hend =>
    simpa [children] using hword.row.then (hfn.row.then ((row_of_head hhead).then hend.row))

/-- What is read for a type holds the nodes below it, in order. -/
theorem row_of_type (h : Written type ts rest) : Row Part true (children (.ofType type)) ts rest := by
  cases h with
  | named hroute hargs => exact hroute.row.then (row_of_typeArgs hargs)
  | array hopen helement hsemicolon hlength _ hclose =>
    exact hopen.row.then ((row_of_written helement).then (hsemicolon.row.then (hlength.row.then hclose.row)))
  | function hword hopen hparams hclose hresult =>
    rw [children, map_eq_flatMap]
    exact hword.row.then (hopen.row.then ((hparams.row fun _ _ _ h => row_of_written h).then
      (hclose.row.then (row_of_result hresult))))

theorem row_of_block (h : Braced Statement body ts rest) : Row Part true (body.statements.map .ofStmt) ts rest := by
  cases h with
  | mk hopen hbody hclose =>
    rw [map_eq_flatMap]
    simpa using hopen.row.then ((hbody.row fun _ _ _ h => Row.one (Part.reads (.stmt h))).then hclose.row)

/-- What is read for a statement holds the nodes below it, in order. -/
theorem row_of_statement (h : Statement stmt ts rest) : Row Part true (children (.ofStmt stmt)) ts rest := by
  cases h with
  | letBinding hword hname hcolon htype hassign hvalue hend =>
    exact hword.row.then (hname.row.then (hcolon.row.then ((row_of_written htype).then (hassign.row.then
      ((row_of_expression hvalue).then hend.row)))))
  | ifChain hfirst hothers hotherwise =>
    exact .cons (.reads (.branch hfirst)) ((row_of_branches hothers).then (row_of_otherwise hotherwise))
  | whileLoop hword hcondition hbody =>
    exact hword.row.then ((row_of_expression hcondition).then (row_of_braced hbody))
  | returnNothing hword hend | breakLoop hword hend | continueLoop hword hend => exact hword.row.then hend.row
  | returnValue hword hvalue hend => exact hword.row.then ((row_of_expression hvalue).then hend.row)
  | block hbody => exact row_of_block hbody
  | assign htarget hfields hassign hvalue hend =>
    exact htarget.row.then (hfields.row.then (hassign.row.then ((row_of_expression hvalue).then hend.row)))
  | expression hvalue hend => exact (row_of_expression hvalue).then hend.row

/-- What is read for an expression holds the nodes below it, in order. -/
theorem row_of_operation (h : Expression bare tier e ts rest) : Row Part true (children (.ofExpr e)) ts rest := by
  -- a looser tier only passes on what a tighter one reads
  generalize hn : 7 - tier = n
  induction n using Nat.strongRecOn generalizing tier with
  | ind n ih =>
    cases h with
    | operand htier he => exact ih _ (by omega) he rfl
    | binary _ hleft hop hright => exact (row_of_expression hleft).then (hop.row.then (row_of_expression hright))
    | unary hop he => exact hop.row.then (row_of_expression he)
    | twoReferences hop he => exact .one (.innerReference hop he)
    | integer h | float h | string h | trueValue h | falseValue h => exact h.row
    | paren hopen he hclose => exact hopen.row.then ((row_of_expression he).then hclose.row)
    | keywordInit hword hroute hopen hfields hclose =>
      simpa [children] using
        hword.row.then (hroute.row.then (hopen.row.then ((row_of_inits hfields).then hclose.row)))
    | bareInit hroute hopen hfields hclose =>
      simpa [children] using hroute.row.then (hopen.row.then ((row_of_inits hfields).then hclose.row))
    | call hroute htypes hopen hargs hclose =>
      have hargs := hargs.row fun _ _ _ h => row_of_expression h
      rw [← map_eq_flatMap] at hargs
      simpa [children] using
        hroute.row.then ((row_of_typeArgs htypes).then (hopen.row.then (hargs.then hclose.row)))
    | field hroot hdot hname hnames => exact hroot.row.then (hdot.row.then (hname.row.then hnames.row))
    | binding hroute => exact hroute.row

/-- The nodes below a node are read one after the other from the tokens of that node. -/
theorem Reads.row (h : node.Reads ts rest) : Row Part true node.children ts rest := by
  cases h with
  | item h => exact row_of_declaration h
  | member h =>
    cases h with
    | mk hname hcolon htype => exact hname.row.then (hcolon.row.then (row_of_written htype))
  | type h => exact row_of_type h
  | block h => exact row_of_block h
  | stmt h => exact row_of_statement h
  | branch h =>
    cases h with
    | mk hword hcondition hbody => exact hword.row.then ((row_of_expression hcondition).then (row_of_braced hbody))
  | expr h => exact row_of_operation h
  | init h =>
    cases h with
    | mk hname hcolon hvalue => exact hname.row.then (hcolon.row.then (row_of_expression hvalue))

theorem Part.row (h : node.Part ts rest) : Row Part true node.children ts rest := by
  cases h with
  | reads h => exact h.row
  | innerReference hop he => exact hop.row.then (row_of_expression he)

theorem Part.suffix (h : node.Part ts rest) : rest <:+ ts := by
  induction node using Node.induct generalizing ts rest with
  | h node ih => exact h.row.suffix fun child hchild _ _ hpart => ih child hchild hpart

/-- Every node takes a token. -/
theorem Part.length_lt (h : node.Part ts rest) : rest.length < ts.length := by
  induction node using Node.induct generalizing ts rest with
  | h node ih => exact h.row.length_le fun child hchild _ _ hpart => ih child hchild hpart

theorem start_of_takes {kind : TokenKind} (h : Takes kind loc ts rest) : ts.head?.map (·.location) = some loc := by
  cases h
  rfl

theorem start_of_expression (h : Expression bare tier e ts rest) : ts.head?.map (·.location) = some e.loc := by
  obtain ⟨token, more, rfl, _, hloc⟩ := h.starts
  rw [hloc]
  rfl

theorem start_of_braced (h : Braced Statement body ts rest) : ts.head?.map (·.location) = some body.loc := by
  cases h with
  | mk hopen => exact start_of_takes hopen

theorem start_of_guarded {branch : Branch Expr Stmt} (h : Guarded word (Braced Statement) branch ts rest) :
    ts.head?.map (·.location) = some branch.loc := by
  cases h with
  | mk hword => exact start_of_takes hword

/-- A statement stands where the first of its tokens does. -/
theorem start_of_statement (h : Statement stmt ts rest) : ts.head?.map (·.location) = some stmt.loc := by
  cases h with
  | ifChain hfirst => exact start_of_guarded hfirst
  | block hbody => exact start_of_braced hbody
  | expression hvalue => exact start_of_expression hvalue
  | letBinding hfirst | whileLoop hfirst | returnNothing hfirst | returnValue hfirst | breakLoop hfirst
  | continueLoop hfirst | assign hfirst => exact start_of_takes hfirst

/-- A node stands where the first of its tokens does. -/
theorem Reads.start (h : node.Reads ts rest) : ts.head?.map (·.location) = some node.loc := by
  cases h with
  | item h =>
    cases h with
    | use hword | struct hword | opaqueType hword | function hword | builtin hword => exact start_of_takes hword
  | member h =>
    cases h with
    | mk hname => exact start_of_takes hname
  | type h =>
    cases h with
    | named hroute =>
      cases hroute with
      | mk hfirst => exact start_of_takes hfirst
    | array hfirst | function hfirst => exact start_of_takes hfirst
  | block h => exact start_of_braced h
  | stmt h => exact start_of_statement h
  | branch h => exact start_of_guarded h
  | expr h => exact start_of_expression h
  | init h =>
    cases h with
    | mk hname => exact start_of_takes hname

end Node

theorem Grammar.SourceFile.row {file : String} {stream : TokenStream} {module_ : Module}
    (h : SourceFile file stream module_) :
      Row Node.Part false (Node.children (.ofModule module_)) stream.tokens [] := by
  cases h with
  | mk hname hitems =>
    rw [Node.children, map_eq_flatMap]
    have hitems := hitems.row fun _ _ _ h => Row.one (Node.Part.reads (.item h))
    cases hname with
    | none => exact hitems
    | some hword hname hend => exact .loose (hword.row.then (hname.row.then (hend.row.then hitems)))

end Smpl
