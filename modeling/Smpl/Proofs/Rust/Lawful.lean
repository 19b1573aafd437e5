import Smpl.Proofs.Decorated.Places
import Smpl.Proofs.Rust.Term

namespace Smpl

open List

/-- A module of the program declares an item under this name. -/
def Graph.DeclaresName (graph : Graph) (name : ItemName) : Prop :=
  ∃ item, graph.Declares name.moduleName item ∧ item.name = name.name

/-- The structs in a type are declared, and its type parameters have these names. -/
structure Ty.Lawful (graph : Graph) (Named : String → Prop) (type : Ty) : Prop where
  items : ∀ name ∈ type.items, graph.DeclaresName name
  params : ∀ param ∈ type.params, Named param.name

theorem Ty.declares_itemsList {graph : Graph} {Named : String → Prop} {types : List Ty}
    (h : ∀ type ∈ types, type.Lawful graph Named) : ∀ name ∈ Ty.itemsList types, graph.DeclaresName name :=
  Ty.forall_mem_itemsList.2 fun type htype => (h type htype).items

theorem Ty.named_paramsList {graph : Graph} {Named : String → Prop} {types : List Ty}
    (h : ∀ type ∈ types, type.Lawful graph Named) : ∀ param ∈ Ty.paramsList types, Named param.name :=
  Ty.forall_mem_paramsList.2 fun type htype => (h type htype).params

namespace Rust

/-- An access to a place of a type that does not move a value out of it. -/
def Access.Lawful (access : Access) (type : Ty) : Prop :=
  access = .used → type.isCopy = true

theorem Access.lawful_reading (type : Ty) : (Access.reading type).Lawful type := by
  intro hused
  unfold reading at hused
  split at hused
  · next hcopy => exact hcopy
  · cases hused

theorem Access.lawful_borrowed (type : Ty) : Access.borrowed.Lawful type := by
  intro hused
  cases hused

/-- A term of declared items and of these names, all of whose accesses are lawful. -/
inductive Term.Lawful (graph : Graph) (Named : String → Prop) : Term → Prop
  | literal {value : Literal} : Lawful graph Named (.literal value)
  | item {name : ItemName} {typeArgs : List Ty} :
    graph.DeclaresName name → (∀ type ∈ typeArgs, type.Lawful graph Named) → Lawful graph Named (.item name typeArgs)
  | path {access : Access} {root : Local} {fields : List String} {type : Ty} :
    access.Lawful type → Named root.name → (∀ field ∈ fields, Named field) →
    Lawful graph Named (.path access root fields type)
  | target {access : Access} {pointer : Term} {type : Ty} :
    access.Lawful type → pointer.Lawful graph Named → Lawful graph Named (.target access pointer type)
  | borrow {operand : Term} : operand.Lawful graph Named → Lawful graph Named (.borrow operand)
  | unary {op : UnaryOp} {operand : Term} : operand.Lawful graph Named → Lawful graph Named (.unary op operand)
  | binary {op : BinaryOp} {left right : Term} :
    left.Lawful graph Named → right.Lawful graph Named → Lawful graph Named (.binary op left right)
  | group {inner : Term} : inner.Lawful graph Named → Lawful graph Named (.group inner)
  | call {callee : Term} {args : List Term} :
    callee.Lawful graph Named → (∀ arg ∈ args, arg.Lawful graph Named) → Lawful graph Named (.call callee args)
  | method {receiver : Term} {name : ItemName} {args : List Term} :
    graph.DeclaresName name → receiver.Lawful graph Named → (∀ arg ∈ args, arg.Lawful graph Named) →
    Lawful graph Named (.method receiver name.name args)
  | construct {struct : ItemName} {fields : List String} {values : List Term} :
    graph.DeclaresName struct → (∀ field ∈ fields, Named field) → (∀ value ∈ values, value.Lawful graph Named) →
    Lawful graph Named (.construct struct fields values)
  | some {value : Term} : value.Lawful graph Named → Lawful graph Named (.some value)
  | none {type : Ty} : type.Lawful graph Named → Lawful graph Named (.none type)

variable {graph : Graph} {Named : String → Prop}

namespace Term.Lawful

variable {term : Term} (h : term.Lawful graph Named)
include h

/-- The items in a lawful term are declared. -/
theorem declares_items : ∀ name ∈ term.items, graph.DeclaresName name := by
  induction h with
  | literal | path => exact forall_mem_nil _
  | item hname htypes => exact forall_mem_cons.2 ⟨hname, Ty.declares_itemsList htypes⟩
  | target _ _ ih | borrow _ ih | unary _ ih | group _ ih | some _ ih => exact ih
  | binary _ _ ihLeft ihRight => exact forall_mem_append.2 ⟨ihLeft, ihRight⟩
  | call _ _ ihCallee ihArgs => exact forall_mem_append.2 ⟨ihCallee, forall_mem_itemsList.2 ihArgs⟩
  | method _ _ _ ihReceiver ihArgs => exact forall_mem_append.2 ⟨ihReceiver, forall_mem_itemsList.2 ihArgs⟩
  | construct hstruct _ _ ih => exact forall_mem_cons.2 ⟨hstruct, forall_mem_itemsList.2 ih⟩
  | none htype => exact htype.items

/-- The accesses in a lawful term are lawful. -/
theorem lawful_accesses : ∀ entry ∈ term.accesses, entry.1.Lawful entry.2 := by
  induction h with
  | literal | item | none => exact forall_mem_nil _
  | path haccess => exact forall_mem_singleton.2 haccess
  | target haccess _ ih => exact forall_mem_cons.2 ⟨haccess, ih⟩
  | borrow _ ih | unary _ ih | group _ ih | some _ ih => exact ih
  | binary _ _ ihLeft ihRight => exact forall_mem_append.2 ⟨ihLeft, ihRight⟩
  | call _ _ ihCallee ihArgs => exact forall_mem_append.2 ⟨ihCallee, forall_mem_accessesList.2 ihArgs⟩
  | method _ _ _ ihReceiver ihArgs => exact forall_mem_append.2 ⟨ihReceiver, forall_mem_accessesList.2 ihArgs⟩
  | construct _ _ _ ih => exact forall_mem_accessesList.2 ih

end Term.Lawful

end Rust

/-- The names that are written for a node are such names. -/
def TypedNode.Named (Named : String → Prop) : TypedNode → Prop
  | .expr (.binding _ _ (.binding symbol)) | .expr (.call _ _ _ _ (.binding symbol) _) => Named symbol.name
  | .expr (.field _ root fields _) => Named root.name ∧ ∀ field ∈ fields, Named field
  | .expr (.init _ _ fields _) => ∀ field ∈ fields, Named field.name
  | _ => True

namespace TypedExpr

open Rust

variable {graph : Graph} {Named : String → Prop} {e : TypedExpr} {term : Term}

theorem lawful_operandTerm (h : term.Lawful graph Named) : (e.operandTerm term).Lawful graph Named := by
  unfold operandTerm
  split
  · exact .group h
  · exact h

/-- The names of the place that an expression names are written for it. -/
theorem named_of_place? (hnames : (TypedNode.expr e).Named Named) {root : Local} {fields : List String} {type : Ty}
    (hplace : e.place? = some (root, fields, type)) : Named root.name ∧ ∀ field ∈ fields, Named field := by
  cases e with
  | binding loc path referent =>
    cases referent with
    | binding symbol =>
      cases (Option.ite_none_left_eq_some.1 hplace).2
      exact ⟨hnames, forall_mem_nil _⟩
    | function signature => cases hplace
  | field loc root' fields' type' =>
    cases (Option.ite_none_left_eq_some.1 hplace).2
    exact hnames
  | _ => cases hplace

theorem lawful_unaryTerm (h : term.Lawful graph Named) (hnames : (TypedNode.expr e).Named Named) (op : UnaryOp)
    (type : Ty) :
    (e.unaryTerm op term type).Lawful graph Named := by
  cases op with
  | dereference => exact .target (Access.lawful_reading type) (lawful_operandTerm h)
  | reference =>
    rw [unaryTerm]
    split
    · next root fields type hplace =>
      obtain ⟨hroot, hfields⟩ := named_of_place? hnames hplace
      exact .path (Access.lawful_borrowed type) hroot hfields
    · exact .borrow (lawful_operandTerm h)
  | negate | not => exact .unary (lawful_operandTerm h)

theorem lawful_headD {terms : List Term} (h : ∀ term ∈ terms, term.Lawful graph Named) :
    (terms.headD default).Lawful graph Named := by
  cases terms with
  | nil => exact .literal
  | cons term terms => exact h term mem_cons_self

theorem lawful_builtinTerm {name : ItemName} (hname : graph.DeclaresName name) {typeArgs : List Ty}
    (htypes : ∀ type ∈ typeArgs, type.Lawful graph Named) {terms : List Term}
    (hterms : ∀ term ∈ terms, term.Lawful graph Named) (args : List TypedExpr) :
    (builtinTerm name.name typeArgs args terms).Lawful graph Named := by
  have hothers : ∀ term ∈ terms.tail, term.Lawful graph Named := fun term hterm => hterms term (mem_of_mem_tail hterm)
  have hreceiver : (if (args.headD default).isOperation then Term.group (terms.headD default)
      else terms.headD default).Lawful graph Named := by
    split
    · exact .group (lawful_headD hterms)
    · exact lawful_headD hterms
  unfold builtinTerm
  split
  · exact .some (lawful_headD hterms)
  · split
    · cases typeArgs with
      | nil => exact .none ⟨forall_mem_nil _, forall_mem_nil _⟩
      | cons type types => exact .none (htypes type mem_cons_self)
    · refine .method hname hreceiver ?_
      split
      · exact forall_mem_singleton.2 (.borrow (lawful_headD hothers))
      · exact hothers

end TypedExpr

section

variable {registry : Registry} {signatures : List Signature} (htables : registry.Tabulates signatures)
  {Named : String → Prop}
include htables

/-- What a written type denotes is lawful, where type names stand for type parameters of such names. -/
theorem Registry.Tabulates.lawful_of_resolve {owner : String} {typeNames : List (String × Ty)}
    (htypeNames : ∀ entry ∈ typeNames, ∃ param, entry.2 = .param param ∧ Named param.name) (type : TypeExpr)
    {resolved : TypedTypeExpr}
    (h : (TypeScope.mk registry.graph registry.types owner typeNames).resolve type = .ok resolved) :
    resolved.type.Lawful registry.graph Named := by
  induction type using TypeExpr.induct generalizing resolved with
  | named loc path args ih =>
    cases TypeScope.resolve_named_eq_ok_iff.1 h with
    | simple hsimple =>
      rcases TypeScope.simple?_eq_ok_some_iff.1 hsimple with ⟨_, hprimitive⟩ | ⟨_, _, hlookup⟩
      · obtain ⟨_, _, rfl⟩ := Option.map_eq_some_iff.1 hprimitive
        exact ⟨forall_mem_nil _, forall_mem_nil _⟩
      · obtain ⟨param, rfl, hparam⟩ := htypeNames _ (mem_of_lookup hlookup)
        exact ⟨forall_mem_nil _, forall_mem_singleton.2 hparam⟩
    | struct _ _ hget =>
      have hdeclares := htables.struct_declares (Table.get_eq_ok_iff.1 hget)
      exact ⟨forall_mem_singleton.2 ⟨_, hdeclares, rfl⟩, forall_mem_nil _⟩
    | opaqueType _ _ _ _ hargs =>
      have hlawful := forall_mem_of_mapM ih hargs
      exact ⟨Ty.declares_itemsList (forall_mem_map.2 hlawful), Ty.named_paramsList (forall_mem_map.2 hlawful)⟩
  | array loc element length ih =>
    obtain ⟨part, hpart, rfl⟩ := TypeScope.resolve_array_eq_ok_iff.1 h
    exact ⟨(ih hpart).items, (ih hpart).params⟩
  | function loc params result ihParams ihResult =>
    obtain ⟨parts, part, hresolved, hpart, rfl⟩ := TypeScope.resolve_function_eq_ok_iff.1 h
    have hlawful : ∀ type ∈ parts.map (·.type), type.Lawful registry.graph Named :=
      forall_mem_map.2 (forall_mem_of_mapM ihParams hresolved)
    have hitems := Ty.declares_itemsList hlawful
    have hparams := Ty.named_paramsList hlawful
    cases result with
    | none =>
      cases hpart
      refine ⟨forall_mem_append.2 ⟨hitems, forall_mem_nil _⟩, ?_⟩
      exact forall_mem_append.2 ⟨hparams, forall_mem_nil _⟩
    | some type =>
      obtain ⟨written, hwritten, rfl⟩ := TypeScope.resolveOption_some_eq_ok_iff.1 hpart
      have hresult := ihResult type rfl hwritten
      exact ⟨forall_mem_append.2 ⟨hitems, hresult.items⟩, forall_mem_append.2 ⟨hparams, hresult.params⟩⟩
  | unknown node => cases h

/-- Functions are registered under names that modules declare. -/
theorem Registry.Tabulates.declaresName_of_function {name : ItemName} {signature : Signature}
    (hget : registry.functions.get name = .ok signature) : registry.graph.DeclaresName signature.name := by
  obtain ⟨_, item, hdeclares, hname, _⟩ := htables.signature_declares (Table.get_eq_ok_iff.1 hget)
  exact ⟨item, hdeclares, hname⟩

/-- Structs are registered under names that modules declare. -/
theorem Registry.Tabulates.declaresName_of_struct {name : ItemName} {info : StructInfo}
    (hget : registry.structs.get name = .ok info) : registry.graph.DeclaresName info.name := by
  obtain ⟨decl, hdecl, hinfo⟩ := (Table.find?_of_mapM htables.structs).1 (Table.get_eq_ok_iff.1 hget)
  obtain ⟨_, _, _, rfl⟩ := Graph.structInfo_eq_ok_iff.1 hinfo
  exact ⟨_, htables.struct_declares hdecl, rfl⟩

end

/-- The term of a checked expression is lawful, where type names stand for type parameters of such names. -/
theorem TypedExpr.lawful_term {ctx : Context} {signatures : List Signature}
    (htables : ctx.registry.Tabulates signatures)
    {Named : String → Prop} (htypeNames : ∀ entry ∈ ctx.typeNames, ∃ param, entry.2 = .param param ∧ Named param.name)
    {scope : Scope} (e : TypedExpr) (hchecks : ∀ node ∈ e.nodes, ctx.ChecksNode scope node)
    (hnames : ∀ node ∈ e.nodes, node.Named Named) : e.term.Lawful ctx.registry.graph Named := by
  induction e using TypedExpr.induct with
  | literal loc value => exact .literal
  | binding loc path referent =>
    obtain ⟨written, hwritten⟩ := hchecks _ mem_cons_self
    cases Context.expr_eq_ok_iff.1 hwritten with
    | binding hvalue =>
      cases hvalue with
      | binding => exact .path (Rust.Access.lawful_reading _) (hnames _ mem_cons_self) (forall_mem_nil _)
      | function _ _ _ hget => exact .item (htables.declaresName_of_function hget) (forall_mem_nil _)
  | field loc root fields type =>
    obtain ⟨hroot, hfields⟩ := hnames _ mem_cons_self
    exact .path (Rust.Access.lawful_reading type) hroot hfields
  | call loc callee typeArgs args target type ih =>
    obtain ⟨hcall, hparts⟩ := forall_mem_cons.1 hchecks
    obtain ⟨hname, hpartNames⟩ := forall_mem_cons.1 hnames
    have hterms : ∀ term ∈ terms args, term.Lawful ctx.registry.graph Named := by
      rw [terms_eq_map]
      refine forall_mem_map.2 fun arg harg => ih arg harg ?_ ?_
      · exact forall_mem_exprsNodes.1 (forall_mem_append.1 hparts).2 arg harg
      · exact forall_mem_exprsNodes.1 (forall_mem_append.1 hpartNames).2 arg harg
    obtain ⟨written, hwritten⟩ := hcall
    cases Context.expr_eq_ok_iff.1 hwritten with
    | call hcallee =>
      cases hcallee with
      | binding _ hfunction =>
        refine .call (.path (fun _ => ?_) hname (forall_mem_nil _)) hterms
        rw [hfunction]
        rfl
      | @function _ _ _ signature _ resolved _ _ _ hget _ hresolved =>
        have hdeclares := htables.declaresName_of_function hget
        have htypes : ∀ type ∈ resolved.map (·.type), type.Lawful ctx.registry.graph Named :=
          forall_mem_map.2
            (forall_mem_of_mapM (fun type _ => htables.lawful_of_resolve htypeNames type) hresolved)
        rw [TypedExpr.term, callTerm]
        split
        · exact lawful_builtinTerm hdeclares htypes hterms args
        · exact .call (.item hdeclares htypes) hterms
  | init loc path fields struct ih =>
    obtain ⟨hinit, hparts⟩ := forall_mem_cons.1 hchecks
    obtain ⟨hfields, hpartNames⟩ := forall_mem_cons.1 hnames
    obtain ⟨written, hwritten⟩ := hinit
    cases Context.expr_eq_ok_iff.1 hwritten with
    | init hstruct =>
      obtain ⟨_, _, _, _, _, _, hget⟩ := Context.struct_eq_ok_iff.1 hstruct
      rw [TypedExpr.term, initTerms_eq_map]
      refine .construct (htables.declaresName_of_struct hget) (forall_mem_map.2 hfields) ?_
      refine forall_mem_map.2 fun field hfield => ih field hfield ?_ ?_
      · exact (forall_mem_initsNodes fun _ _ => trivial).1 hparts field hfield
      · exact (forall_mem_initsNodes fun _ _ => trivial).1 hpartNames field hfield
  | unary loc op operand type ih =>
    obtain ⟨_, hparts⟩ := forall_mem_cons.1 hchecks
    obtain ⟨_, hpartNames⟩ := forall_mem_cons.1 hnames
    have hoperand : (TypedNode.expr operand).Named Named := by
      cases operand <;> exact hpartNames _ mem_cons_self
    exact lawful_unaryTerm (ih hparts hpartNames) hoperand op type
  | binary loc op left right type ihLeft ihRight =>
    obtain ⟨hleft, hright⟩ := forall_mem_append.1 (forall_mem_cons.1 hchecks).2
    obtain ⟨hleftNames, hrightNames⟩ := forall_mem_append.1 (forall_mem_cons.1 hnames).2
    exact .binary (lawful_operandTerm (ihLeft hleft hleftNames)) (lawful_operandTerm (ihRight hright hrightNames))
  | paren loc inner ih =>
    exact .group (ih (forall_mem_cons.1 hchecks).2 (forall_mem_cons.1 hnames).2)

/-- The term of a checked expression is lawful, whatever the names in it are. -/
theorem Context.lawful_term_of_expr {ctx : Context} {signatures : List Signature}
    (htables : ctx.registry.Tabulates signatures)
    (htypeNames : ∀ entry ∈ ctx.typeNames, ∃ param, entry.2 = .param param)
    {scope : Scope} {written : Expr} {e : TypedExpr} (h : ctx.expr scope written = .ok e) :
    e.term.Lawful ctx.registry.graph fun _ => True := by
  refine e.lawful_term htables (fun entry hentry => ?_) (checksNode_of_expr written h) fun node _ => ?_
  · obtain ⟨param, hparam⟩ := htypeNames entry hentry
    exact ⟨param, hparam, trivial⟩
  · unfold TypedNode.Named
    split <;> simp

end Smpl
