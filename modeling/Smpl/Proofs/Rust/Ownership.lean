import Smpl.Proofs.Rust.Nesting
import Smpl.Proofs.Typing.Check

namespace Smpl

open List

namespace Rust

/-- A term that is no operation. -/
inductive Term.Primary : Term → Prop
  | literal {value : Literal} : Primary (.literal value)
  | item {name : ItemName} {typeArgs : List Ty} : Primary (.item name typeArgs)
  | path {access : Access} {root : Local} {fields : List String} {type : Ty} :
    access ≠ .borrowed → Primary (.path access root fields type)
  | target {pointer : Term} {type : Ty} : Primary (.target .cloned pointer type)
  | group {inner : Term} : Primary (.group inner)
  | call {callee : Term} {args : List Term} : callee.Primary → Primary (.call callee args)
  | method {receiver : Term} {name : String} {args : List Term} :
    receiver.Primary → Primary (.method receiver name args)
  | construct {struct : ItemName} {fields : List String} {values : List Term} :
    Primary (.construct struct fields values)
  | some {value : Term} : Primary (.some value)
  | none {type : Ty} : Primary (.none type)

/-- A term whose value belongs to no place: a string literal, a clone, a call, a constructor, or such a term in
    parentheses. -/
inductive Term.Temporary : Term → Prop
  | string {value : String} : Temporary (.literal (.string value))
  | path {root : Local} {fields : List String} {type : Ty} : Temporary (.path .cloned root fields type)
  | target {pointer : Term} {type : Ty} : Temporary (.target .cloned pointer type)
  | call {callee : Term} {args : List Term} : callee.Primary → Temporary (.call callee args)
  | method {receiver : Term} {name : String} {args : List Term} :
    receiver.Primary → Temporary (.method receiver name args)
  | construct {struct : ItemName} {fields : List String} {values : List Term} :
    Temporary (.construct struct fields values)
  | some {value : Term} : Temporary (.some value)
  | none {type : Ty} : Temporary (.none type)
  | group {inner : Term} : inner.Temporary → Temporary (.group inner)

theorem Term.Temporary.primary {term : Term} (h : term.Temporary) : term.Primary := by
  cases h with
  | string => exact .literal
  | path => exact .path (by decide)
  | target => exact .target
  | call hcallee => exact .call hcallee
  | method hreceiver => exact .method hreceiver
  | construct => exact .construct
  | some => exact .some
  | none => exact .none
  | group => exact .group

theorem Access.reading_ne_borrowed (type : Ty) : Access.reading type ≠ .borrowed := by
  unfold reading
  split <;> decide

theorem Access.reading_of_not_isCopy {type : Ty} (h : type.isCopy = false) : Access.reading type = .cloned := by
  rw [reading, h]
  rfl

theorem leads_chain {root : String} (hroot : isName root = true) (fields : List String) :
    Leads (chain root fields).toList := by
  have hleads := (calm_identifier hroot).leads
  rw [chain, String.toList_intercalate, map_cons, map_cons]
  cases fields with
  | nil => simpa [List.intercalate] using hleads
  | cons field fields =>
    rw [map_cons, map_cons, intercalate_cons_cons, append_assoc]
    exact hleads.append _

theorem leads_literalText (value : Literal) : Leads (literalText value).toList := by
  cases value with
  | integer value => exact (calm_integer value).leads
  | float value => exact (calm_double value).leads
  | bool value => cases value <;> exact ⟨_, _, rfl, by decide⟩
  | string value =>
    have hword : Leads "String::from(".toList := ⟨'S', _, rfl, by decide⟩
    rw [literalText, String.toList_append, String.toList_append]
    exact (hword.append _).append _

section

variable {graph : Graph} {spell : ItemName → String}
  (hspell : ∀ name, graph.DeclaresName name → Leads (spell name).toList)
include hspell

/-- The text of a term that is no operation dereferences nothing. -/
theorem Term.Primary.leads {term : Term} (h : term.Primary) (hlawful : term.Lawful graph (isName · = true)) :
    Leads (term.print spell).toList := by
  induction h with
  | literal => exact leads_literalText _
  | item =>
    cases hlawful with
    | item hname =>
      rw [print, String.toList_append]
      exact (hspell _ hname).append _
  | @path access _ _ _ haccess =>
    cases hlawful with
    | path _ hroot =>
      cases access with
      | used => exact leads_chain hroot _
      | cloned =>
        rw [print, Access.text, String.toList_append]
        exact (leads_chain hroot _).append _
      | borrowed => exact absurd rfl haccess
  | target =>
    rw [print, toList_cloned_target]
    exact ⟨'(', _, rfl, by decide⟩
  | group =>
    rw [print, String.toList_append, String.toList_append]
    exact ⟨'(', _, rfl, by decide⟩
  | call _ ih =>
    cases hlawful with
    | call hcallee =>
      simp only [print, String.toList_append]
      exact (((ih hcallee).append _).append _).append _
  | method _ ih =>
    cases hlawful with
    | method _ hreceiver =>
      simp only [print, String.toList_append]
      exact (((((ih hreceiver).append _).append _).append _).append _).append _
  | construct =>
    cases hlawful with
    | construct hstruct =>
      rw [print, String.toList_append]
      exact (hspell _ hstruct).append _
  | some =>
    have hword : Leads "Some(".toList := ⟨'S', _, rfl, by decide⟩
    rw [print, String.toList_append, String.toList_append]
    exact (hword.append _).append _
  | none =>
    have hword : Leads "None::<".toList := ⟨'N', _, rfl, by decide⟩
    rw [print, String.toList_append, String.toList_append]
    exact (hword.append _).append _

/-- The text of a temporary names no place. -/
theorem Term.Temporary.not_placeText (hbalanced : ∀ name, graph.DeclaresName name → Balanced (spell name).toList)
    (hnames : ∀ name, graph.DeclaresName name → isName name.name = true) {term : Term} (h : term.Temporary)
    (hlawful : term.Lawful graph (isName · = true)) : ¬PlaceText (term.print spell).toList := by
  have hopen : isIdentifierPart '(' = false ∧ '(' ≠ '.' ∧ '(' ≠ '#' := by decide
  have hcolon : isIdentifierPart ':' = false ∧ ':' ≠ '.' ∧ ':' ≠ '#' := by decide
  have hblank : isIdentifierPart ' ' = false ∧ ' ' ≠ '.' ∧ ' ' ≠ '#' := by decide
  induction h with
  | @string value =>
    have hcallee : Calm "String::from".toList := by decide
    have htext : (literalText (.string value)).toList =
        "String::from".toList ++ ("(" ++ stringLiteral value ++ ")").toList := by
      simp [literalText, String.toList_append]
    rw [print, htext]
    exact PlaceText.not_of_append hcallee.balanced hcallee.leads (by simp) hopen
  | path =>
    cases hlawful with
    | path _ hroot hfields =>
      rw [print, Access.text, String.toList_append]
      exact PlaceText.not_of_append (balanced_chain hroot hfields) (leads_chain hroot _) (by decide) hopen
  | target =>
    cases hlawful with
    | target _ hpointer =>
      have hstar : Balanced ['*'] := by decide
      rw [print, toList_cloned_target]
      refine PlaceText.not_of_append (hstar.append (hpointer.balanced hbalanced hnames)).group ?_ (by decide) hopen
      exact ⟨'(', _, rfl, by decide⟩
  | call hprimary =>
    cases hlawful with
    | call hcallee =>
      rw [print, String.append_assoc, String.append_assoc, String.toList_append]
      refine PlaceText.not_of_append (hcallee.balanced hbalanced hnames) (hprimary.leads hspell hcallee) ?_ hopen
      simp [String.toList_append]
  | method hprimary =>
    cases hlawful with
    | method _ hreceiver =>
      simp only [print, String.append_assoc]
      rw [String.toList_append]
      refine PlaceText.not_of_append (hreceiver.balanced hbalanced hnames) (hprimary.leads hspell hreceiver) ?_ hopen
      simp [String.toList_append]
  | construct =>
    cases hlawful with
    | construct hstruct =>
      rw [print, String.toList_append]
      refine PlaceText.not_of_append (hbalanced _ hstruct) (hspell _ hstruct) ?_ hblank
      split <;> simp [String.toList_append]
  | @some value =>
    have hcallee : Calm "Some".toList := by decide
    have htext : (print spell (.some value)).toList = "Some".toList ++ ("(" ++ value.print spell ++ ")").toList := by
      simp [print, String.toList_append]
    rw [htext]
    exact PlaceText.not_of_append hcallee.balanced hcallee.leads (by simp) hopen
  | @none type =>
    have hword : Calm "None".toList := by decide
    have htext : (print spell (.none type)).toList = "None".toList ++ ("::<" ++ type.rustText spell ++ ">").toList := by
      simp [print, String.toList_append]
    rw [htext]
    exact PlaceText.not_of_append hword.balanced hword.leads (by simp) hcolon
  | group _ ih =>
    cases hlawful with
    | group hinner =>
      rw [print, String.toList_append, String.toList_append]
      exact PlaceText.not_group (ih hinner)

end

end Rust

theorem Ty.isCopy_of_isNumeric {type : Ty} (h : type.isNumeric = true) : type.isCopy = true := by
  rcases Ty.isNumeric_iff.1 h with rfl | rfl <;> rfl

/-- The results of binary operations are copied. -/
theorem Context.isCopy_of_binaryType {op : BinaryOp} {left right : TypedExpr} {type : Ty}
    (h : binaryType op left right = .ok type) : type.isCopy = true := by
  have htype := binaryType_eq_ok_iff.1 h
  split at htype
  · rw [htype.2.2]
    rfl
  · split at htype
    · rw [htype.2.2]
      rfl
    · rw [htype.2.2]
      split
      · rfl
      · exact Ty.isCopy_of_isNumeric htype.1

namespace TypedExpr

open Rust

theorem primary_receiver {args : List TypedExpr} (h : ∀ arg ∈ args, arg.isOperation = false → arg.term.Primary) :
    (if (args.headD default).isOperation then Term.group ((terms args).headD default)
      else (terms args).headD default).Primary := by
  cases args with
  | nil => exact .literal
  | cons arg args =>
    rw [terms, headD_cons, headD_cons]
    split
    · exact .group
    · next hoperation => exact h arg mem_cons_self (Bool.eq_false_iff.2 hoperation)

/-- The term of a call is a temporary. -/
theorem temporary_callTerm {args : List TypedExpr} (h : ∀ arg ∈ args, arg.isOperation = false → arg.term.Primary)
    (target : Referent) (typeArgs : List Ty) : (callTerm target typeArgs args (terms args)).Temporary := by
  cases target with
  | binding symbol => exact .call (.path (by decide))
  | function signature =>
    rw [callTerm, builtinTerm]
    split
    · split
      · exact .some
      · split
        · exact .none
        · exact .method (primary_receiver h)
    · exact .call .item

/-- The term of an expression that is no operation is none. -/
theorem primary_term (e : TypedExpr) (h : e.isOperation = false) : e.term.Primary := by
  induction e using TypedExpr.induct with
  | literal => exact .literal
  | binding loc path referent =>
    cases referent with
    | binding symbol => exact .path (Access.reading_ne_borrowed _)
    | function signature => exact .item
  | field => exact .path (Access.reading_ne_borrowed _)
  | call loc callee typeArgs args target type ih => exact (temporary_callTerm ih target _).primary
  | init => exact .construct
  | paren => exact .group
  | unary | binary => cases h

/-- The term of a checked expression is a temporary if values of its type are not copied. -/
theorem temporary_term {ctx : Context} {scope : Scope} (e : TypedExpr)
    (hchecks : ∀ node ∈ e.nodes, ctx.ChecksNode scope node) (hcopy : e.type.isCopy = false) : e.term.Temporary := by
  induction e using TypedExpr.induct with
  | literal loc value =>
    cases value with
    | string value => exact .string
    | integer | float | bool => cases hcopy
  | binding loc path referent =>
    cases referent with
    | binding symbol =>
      have hcloned : Access.reading symbol.type = .cloned := Access.reading_of_not_isCopy hcopy
      rw [term, hcloned]
      exact .path
    | function signature => cases hcopy
  | field loc root fields type =>
    have hcloned : Access.reading type = .cloned := Access.reading_of_not_isCopy hcopy
    rw [term, hcloned]
    exact .path
  | call loc callee typeArgs args target type => exact temporary_callTerm (fun arg _ => arg.primary_term) target _
  | init => exact .construct
  | unary loc op operand type =>
    obtain ⟨written, hwritten⟩ := hchecks _ mem_cons_self
    cases Context.expr_eq_ok_iff.1 hwritten with
    | unary _ htype =>
      have hresult := Context.unaryType_eq_ok_iff.1 htype
      cases op with
      | dereference =>
        have hcloned : Access.reading type = .cloned := Access.reading_of_not_isCopy hcopy
        rw [term, unaryTerm, hcloned]
        exact .target
      | reference =>
        subst hresult
        cases hcopy
      | negate =>
        obtain ⟨rfl, hnumeric⟩ := hresult
        have hcopied : operand.type.isCopy = false := hcopy
        rw [Ty.isCopy_of_isNumeric hnumeric] at hcopied
        cases hcopied
      | not =>
        obtain ⟨rfl, _⟩ := hresult
        cases hcopy
  | binary loc op left right type =>
    obtain ⟨written, hwritten⟩ := hchecks _ mem_cons_self
    cases Context.expr_eq_ok_iff.1 hwritten with
    | binary _ _ htype =>
      have hcopied : type.isCopy = false := hcopy
      rw [Context.isCopy_of_binaryType htype] at hcopied
      cases hcopied
  | paren loc inner ih => exact .group (ih (forall_mem_cons.1 hchecks).2 hcopy)

end TypedExpr

/-- The names that are written for a checked node are those that were spelled. -/
theorem Context.ChecksNode.named {ctx : Context} {scope : Scope} {node : TypedNode} (h : ctx.ChecksNode scope node)
    (hspellable : node.Spellable) : node.Named (isName · = true) := by
  cases node with
  | expr e =>
    obtain ⟨written, hwritten⟩ := h
    cases e with
    | binding loc path referent =>
      cases Context.expr_eq_ok_iff.1 hwritten with
      | binding hvalue =>
        cases hvalue with
        | binding hlocal =>
          cases hspellable with
          | binding hpath => exact isName_of_local? hlocal hpath
        | function => trivial
    | field loc root fields type =>
      cases Context.expr_eq_ok_iff.1 hwritten with
      | field hlookup =>
        cases hspellable with
        | field hroot _ hfields => exact ⟨hroot, hfields⟩
    | call loc path typeArgs args target type =>
      cases Context.expr_eq_ok_iff.1 hwritten with
      | call hcallee =>
        cases hcallee with
        | binding hlocal =>
          cases hspellable with
          | call hpath => exact isName_of_local? hlocal hpath
        | function => trivial
    | init loc path fields struct =>
      rw [TypedNode.Spellable, TypedExpr.erase, eraseInits_eq_map] at hspellable
      cases hspellable with
      | init _ hnames => exact forall_mem_map.1 hnames
    | _ => trivial
  | _ => trivial

/-- The names of items that are declared, and those of their modules, are those that were spelled. -/
theorem Graph.DeclaresName.isName {trees : List Module} {prelude : Option Module}
    (hspellable : ∀ tree ∈ prelude.toList ++ trees, tree.Spellable) {name : ItemName}
    (h : (Graph.ofTrees trees prelude).DeclaresName name) :
      isName name.moduleName = true ∧ isName name.name = true := by
  obtain ⟨item, ⟨module_, hmodule, hname, hitem, _⟩, hitemName⟩ := h
  obtain ⟨hknown, htree⟩ := Graph.of_mem_ofTrees hmodule
  have hspelled := hspellable _ htree
  rw [← hname, ← hitemName, hknown]
  exact ⟨hspelled.isName_knownName, (hspelled.items item hitem).isName⟩

namespace Program

variable {trees : List Module} {prelude : Option Module} {program : Program}
  (hprogram : ofModules trees prelude = .ok program) {module_ : TypedModule} (hmodule : module_ ∈ program.modules)
  {loc : Location} {header : Header TypedTypeExpr} {body : Block TypedStmt} {signature : Signature}
  (hitem : TypedItem.function loc header body signature ∈ module_.items) {e : TypedExpr}
    (he : .expr e ∈ blockNodes body)
include hprogram hmodule hitem he

/-- The terms of an accepted program of modules that can be spelled are lawful, and all names in them are spelled. -/
theorem lawful_term_of_spellable (hspellable : ∀ tree ∈ prelude.toList ++ trees, tree.Spellable) :
    e.term.Lawful program.registry.graph (isName · = true) := by
  obtain ⟨_, ⟨signatures, htables⟩, hmodules⟩ := spec_of_ofModules hprogram
  obtain ⟨scope, written, hwritten, _⟩ := exists_expr_of_mem_body hprogram hmodule hitem he
  have hnodes := Context.checksNode_of_expr written hwritten
  cases spellable_of_mem_items hprogram hmodule hitem hspellable with
  | function hheader hstmts =>
    have hspelled := e.spellable_nodes (Block.spellable_nodes hstmts _ he)
    refine e.lawful_term htables (fun entry hentry => ?_) hnodes fun node hnode => ?_
    · obtain ⟨param, hparam, rfl⟩ := mem_map.1 hentry
      obtain ⟨_, _, _, _, _, hchecks⟩ := Registry.exists_checksItem hmodules hmodule hitem
      cases hchecks with
      | function =>
        obtain ⟨name, hname, rfl⟩ := mem_map.1 hparam
        exact ⟨_, rfl, hheader.typeParams name hname⟩
    · exact (hnodes node hnode).named (hspelled node hnode)

/-- The text of an expression whose values are not copied names no place. -/
theorem not_placeText_of_spellable (hspellable : ∀ tree ∈ prelude.toList ++ trees, tree.Spellable)
    (hcopy : e.type.isCopy = false) (setting : Rust.Setting) :
    ¬Rust.PlaceText (e.term.print setting.itemPath).toList := by
  obtain ⟨hgraph, _, _⟩ := spec_of_ofModules hprogram
  obtain ⟨scope, written, hwritten, _⟩ := exists_expr_of_mem_body hprogram hmodule hitem he
  have htemporary := e.temporary_term (Context.checksNode_of_expr written hwritten) hcopy
  have hnames : ∀ name, program.registry.graph.DeclaresName name → isName name.moduleName = true ∧
      isName name.name = true := by
    intro name hname
    exact Graph.DeclaresName.isName hspellable (hgraph ▸ hname)
  have hpaths : ∀ name, program.registry.graph.DeclaresName name → Rust.Calm (setting.itemPath name).toList := by
    intro name hname
    exact setting.calm_itemPath (hnames name hname).1 (hnames name hname).2
  refine htemporary.not_placeText (fun name hname => (hpaths name hname).leads)
    (fun name hname => (hpaths name hname).balanced) (fun name hname => (hnames name hname).2) ?_
  exact lawful_term_of_spellable hprogram hmodule hitem he hspellable

end Program

namespace Rust

/-- The text of a function body gives values that are not copied as temporaries, and it names the places of such values
    only to clone them, to refer to them or to assign to them. -/
structure MovesNothing (registry : Registry) (moduleName : String) (signature : Signature) (body : Block TypedStmt) :
    Prop where
  temporary : ∀ {e} {setting : Setting} {text}, .expr e ∈ blockNodes body → e.type.isCopy = false →
    setting.expr e = .ok text → e.term.Temporary ∧ text = e.term.print setting.itemPath
  accesses : ∀ line ∈ blockRustLines body, ∀ term ∈ line.term?, ∀ entry ∈ term.accesses, entry.2.isCopy = false →
    entry.1 = .cloned ∨ entry.1 = .borrowed
  text : ∀ {shadowed lines}, functionLines ⟨registry.graph.prelude, moduleName, shadowed⟩ signature body = .ok lines →
    lines = signature.rustHeader (functionSetting registry.graph.prelude moduleName signature body).itemPath ::
      (blockRustLines body).map (·.print (functionSetting registry.graph.prelude moduleName signature body).itemPath) ++
        ["\x7d"]

/-- What a lawful access does to a place whose values are not copied. -/
theorem Access.Lawful.cloned_or_borrowed {access : Access} {type : Ty} (h : access.Lawful type)
    (hcopy : type.isCopy = false) :
    access = .cloned ∨ access = .borrowed := by
  cases access with
  | used =>
    have hused := h rfl
    rw [hcopy] at hused
    cases hused
  | cloned => exact .inl rfl
  | borrowed => exact .inr rfl

end Rust

namespace Program

variable {trees : List Module} {prelude : Option Module} {program : Program}

/-- The text of a function of an accepted program moves nothing out of a variable. If the modules are such as texts
    have, the text of an expression whose values are not copied is no path and no dereference, in parentheses or
    not. -/
theorem movesNothing_of_ofModules (hprogram : ofModules trees prelude = .ok program) {module_ : TypedModule}
    (hmodule : module_ ∈ program.modules) {loc : Location} {header : Header TypedTypeExpr} {body : Block TypedStmt}
    {signature : Signature} (hitem : TypedItem.function loc header body signature ∈ module_.items) :
    Rust.MovesNothing program.registry module_.name signature body ∧
      ((∀ tree ∈ prelude.toList ++ trees, tree.Spellable) → ∀ {e} {setting : Rust.Setting} {text},
        .expr e ∈ blockNodes body → e.type.isCopy = false → setting.expr e = .ok text →
          ¬Rust.PlaceText text.toList) := by
  obtain ⟨_, ⟨signatures, htables⟩, _⟩ := spec_of_ofModules hprogram
  refine ⟨⟨fun {e setting text} he hcopy htext => ?_, ?_, fun htext => ?_⟩,
    fun hspellable {e setting text} he hcopy htext => ?_⟩
  · obtain ⟨scope, written, hwritten, _⟩ := exists_expr_of_mem_body hprogram hmodule hitem he
    exact ⟨e.temporary_term (Context.checksNode_of_expr written hwritten) hcopy, setting.gives_expr e text htext⟩
  · have hholds : ∀ line ∈ blockRustLines body, line.Holds (fun term => ∀ entry ∈ term.accesses, entry.1.Lawful entry.2)
        fun _ => True := by
      refine Block.holds_rustLines (fun _ => id) fun node hnode => ?_
      cases node with
      | expr e =>
        obtain ⟨scope, written, hwritten, _⟩ := exists_expr_of_mem_body hprogram hmodule hitem hnode
        exact (Context.lawful_term_of_expr htables Registry.exists_param_of_mem_typeNames hwritten).lawful_accesses
      | _ => trivial
    intro line hline term hterm entry hentry hcopy
    exact ((hholds line hline).1 term hterm entry hentry).cloned_or_borrowed hcopy
  · exact Rust.gives_functionLines program.registry.graph.prelude module_.name _ _ body _ htext
  · rw [setting.gives_expr e text htext]
    exact not_placeText_of_spellable hprogram hmodule hitem he hspellable hcopy setting

/-- A function that copies a struct and assigns to a field of the copy. -/
theorem movesNothing_of_ofModules_assigned :
    ∃ source program module_ loc header body signature e,
      Module.ofSource "m" ("mod m; struct P {name: string} fn rename(p: P, name: string) -> string " ++
        "{let q: P = *&p; q.name = name; return (q.name);}") = .ok source ∧
      ofModules [source] none = .ok program ∧ module_ ∈ program.modules ∧
      TypedItem.function loc header body signature ∈ module_.items ∧
      Rust.itemLines program.registry.structs ⟨none, module_.name, []⟩ (.function loc header body signature) = .ok
        ["", "    pub fn rename(mut p: P, mut name: String) -> String \x7b", "        let mut q: P = (*&p).clone();",
          "        q.name = name.clone();", "        return (q.name.clone());", "    \x7d"] ∧
      .expr e ∈ blockNodes body ∧ e.type.isCopy = false ∧
      (Rust.Setting.mk none module_.name []).expr e = .ok "(q.name.clone())" ∧
      Rust.MovesNothing program.registry module_.name signature body ∧ ¬Rust.PlaceText "(q.name.clone())".toList := by
  simp only [exists_and_left]
  refine exists_ok₂ (p := fun _ program => program.modules.any fun module_ => module_.items.any fun item =>
    (Rust.itemLines program.registry.structs ⟨none, module_.name, []⟩ item).toOption.any (· =
      ["", "    pub fn rename(mut p: P, mut name: String) -> String \x7b", "        let mut q: P = (*&p).clone();",
        "        q.name = name.clone();", "        return (q.name.clone());", "    \x7d"]) &&
    item.exprs.any fun e => e.type.isCopy = false &&
      ((Rust.Setting.mk none module_.name []).expr e).toOption.any (· = "(q.name.clone())")) (by decide +kernel)
    fun source program hsource hprogram hall => ?_
  obtain ⟨module_, hmodule, hall⟩ := any_eq_true.1 hall
  obtain ⟨item, hitem, hall⟩ := any_eq_true.1 hall
  obtain ⟨hlines, hexprs⟩ := Bool.and_eq_true_iff.1 hall
  obtain ⟨lines, hlines, heq⟩ := exists_eq_ok_of_any hlines
  rw [of_decide_eq_true heq] at hlines
  obtain ⟨e, he, hexpr⟩ := any_eq_true.1 hexprs
  obtain ⟨hcopy, htext⟩ := Bool.and_eq_true_iff.1 hexpr
  obtain ⟨text, htext, heq⟩ := exists_eq_ok_of_any htext
  rw [of_decide_eq_true heq] at htext
  obtain ⟨loc, header, body, signature, rfl, hnode⟩ := TypedItem.mem_exprs_iff.1 he
  have hspellable : ∀ tree ∈ (none : Option Module).toList ++ [source], tree.Spellable :=
    forall_mem_singleton.2 (Module.settled_of_ofSource hsource).1
  obtain ⟨hmoves, hplaces⟩ := movesNothing_of_ofModules hprogram hmodule hitem
  exact ⟨module_, hmodule, loc, header, body, signature, hitem, hlines, e, hnode, of_decide_eq_true hcopy, htext,
    hmoves, hplaces hspellable hnode (of_decide_eq_true hcopy) htext⟩

end Program

end Smpl
