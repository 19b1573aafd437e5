import Smpl.Proofs.Rust.Lowering

namespace Smpl

open List

variable (spell : ItemName → String) {body : Block TypedStmt} {types : List Ty}

mutual

/-- The Rust text of a type, by the spelling of the structs in it. -/
def Ty.rustText : Ty → String
  | .primitive type => (Rust.primitiveText type).toOption.getD ""
  | .struct name => spell name
  | .param declared => Rust.identifier declared.name
  | .array element length => "[" ++ element.rustText ++ "; " ++ toString length ++ "]"
  | .function params result =>
    "fn(" ++ ", ".intercalate (Ty.rustTexts params) ++ ")" ++
      if result = .unit then "" else " -> " ++ result.rustText
  | .reference target => "&" ++ target.rustText
  | .opaqueType _ args => "Option<" ++ (Ty.rustTexts args).headD "" ++ ">"

def Ty.rustTexts : List Ty → List String
  | [] => []
  | type :: types => type.rustText :: Ty.rustTexts types

end

mutual

/-- The structs in a type. -/
def Ty.items : Ty → List ItemName
  | .struct name => [name]
  | .array element _ => element.items
  | .function params result => Ty.itemsList params ++ result.items
  | .reference target => target.items
  | .opaqueType _ args => Ty.itemsList args
  | .primitive _ | .param _ => []

def Ty.itemsList : List Ty → List ItemName
  | [] => []
  | type :: types => type.items ++ Ty.itemsList types

end

namespace Rust

/-- How a place is accessed: its value is used as it is, cloned, or referred to. -/
inductive Access
  | used
  | cloned
  | borrowed
deriving DecidableEq, Repr

/-- A Rust expression. The places of a program are the paths that start at a binding, and what references lead to. -/
inductive Term
  | literal (value : Literal)
  | item (name : ItemName) (typeArgs : List Ty)
  | path (access : Access) (root : Local) (fields : List String) (type : Ty)
  | target (access : Access) (pointer : Term) (type : Ty)
  | borrow (operand : Term)
  | unary (op : UnaryOp) (operand : Term)
  | binary (op : BinaryOp) (left right : Term)
  | group (inner : Term)
  | call (callee : Term) (args : List Term)
  | method (receiver : Term) (name : String) (args : List Term)
  | construct (struct : ItemName) (fields : List String) (values : List Term)
  | some (value : Term)
  | none (type : Ty)
deriving Repr, Inhabited

/-- The text of an access to a place. -/
def Access.text (access : Access) (place : String) : String :=
  match access with
  | .used => place
  | .cloned => place ++ ".clone()"
  | .borrowed => "&" ++ place

/-- The text of an access to what a reference leads to. -/
def Access.targetText (access : Access) (pointer : String) : String :=
  match access with
  | .used => "*" ++ pointer
  | .cloned => "(*" ++ pointer ++ ").clone()"
  | .borrowed => "&*" ++ pointer

/-- Reading copies a place if its type allows it. -/
def Access.reading (type : Ty) : Access :=
  if type.isCopy then .used else .cloned

namespace Term

mutual

/-- The text of a term, by the spelling of the items in it. -/
def print : Term → String
  | .literal value => literalText value
  | .item name typeArgs =>
    spell name ++ if typeArgs.isEmpty then "" else "::<" ++ ", ".intercalate (Ty.rustTexts spell typeArgs) ++ ">"
  | .path access root fields _ => access.text (chain root.name fields)
  | .target access pointer _ => access.targetText pointer.print
  | .borrow operand => "&" ++ operand.print
  | .unary op operand => op.spelling ++ operand.print
  | .binary op left right => left.print ++ " " ++ op.spelling ++ " " ++ right.print
  | .group inner => "(" ++ inner.print ++ ")"
  | .call callee args => callee.print ++ "(" ++ ", ".intercalate (printAll args) ++ ")"
  | .method receiver name args =>
    receiver.print ++ "." ++ name ++ "(" ++ ", ".intercalate (printAll args) ++ ")"
  | .construct struct fields values =>
    let texts := List.zipWith (fun field text => identifier field ++ ": " ++ text) fields (printAll values)
    spell struct ++ if texts.isEmpty then " \x7b\x7d" else " \x7b " ++ ", ".intercalate texts ++ " \x7d"
  | .some value => "Some(" ++ value.print ++ ")"
  | .none type => "None::<" ++ type.rustText spell ++ ">"

def printAll : List Term → List String
  | [] => []
  | term :: terms => term.print :: printAll terms

end

mutual

/-- The items that a term names. -/
def items : Term → List ItemName
  | .item name typeArgs => name :: Ty.itemsList typeArgs
  | .target _ inner _ | .borrow inner | .unary _ inner | .group inner | .some inner => inner.items
  | .binary _ left right => left.items ++ right.items
  | .call callee args => callee.items ++ itemsList args
  | .method receiver _ args => receiver.items ++ itemsList args
  | .construct struct _ values => struct :: itemsList values
  | .none type => type.items
  | .literal _ | .path _ _ _ _ => []

def itemsList : List Term → List ItemName
  | [] => []
  | term :: terms => term.items ++ itemsList terms

end

mutual

/-- The places in a term by their types, with the way in which each is accessed. -/
def accesses : Term → List (Access × Ty)
  | .path access _ _ type => [(access, type)]
  | .target access pointer type => (access, type) :: pointer.accesses
  | .borrow inner | .unary _ inner | .group inner | .some inner => inner.accesses
  | .binary _ left right => left.accesses ++ right.accesses
  | .call callee args => callee.accesses ++ accessesList args
  | .method receiver _ args => receiver.accesses ++ accessesList args
  | .construct _ _ values => accessesList values
  | .literal _ | .item _ _ | .none _ => []

def accessesList : List Term → List (Access × Ty)
  | [] => []
  | term :: terms => term.accesses ++ accessesList terms

end

end Term

/-- The lines without an expression. -/
inductive Mark
  | opening
  | closing
  | otherwise
  | leave
  | breakLoop
  | continueLoop
deriving DecidableEq, Repr

def Mark.text : Mark → String
  | .opening => "\x7b"
  | .closing => "\x7d"
  | .otherwise => "\x7d else \x7b"
  | .leave => "return;"
  | .breakLoop => "break;"
  | .continueLoop => "continue;"

/-- What a condition decides. -/
inductive Guard
  | branch
  | nextBranch
  | loop
deriving DecidableEq, Repr

def Guard.text : Guard → String
  | .branch => "if "
  | .nextBranch => "\x7d else if "
  | .loop => "while "

/-- A line in the body of a Rust function. -/
inductive Line
  | declare (symbol : Local) (type : Ty) (value : Term)
  | assign (target : Local) (fields : List String) (value : Term)
  | check (guard : Guard) (condition : Term)
  | give (value : Term)
  | evaluate (value : Term)
  | mark (kind : Mark)
  | indented (line : Line)
deriving Repr, Inhabited

namespace Line

/-- The text of a line, by the spelling of the items in it. -/
def print : Line → String
  | .declare symbol type value =>
    "let mut " ++ identifier symbol.name ++ ": " ++ type.rustText spell ++ " = " ++ value.print spell ++ ";"
  | .assign target fields value => chain target.name fields ++ " = " ++ value.print spell ++ ";"
  | .check guard condition => guard.text ++ condition.print spell ++ " \x7b"
  | .give value => "return " ++ value.print spell ++ ";"
  | .evaluate value => value.print spell ++ ";"
  | .mark kind => kind.text
  | .indented line => indentation ++ line.print

/-- The term of a line, if it has one. -/
def term? : Line → Option Term
  | .declare _ _ value | .assign _ _ value | .check _ value | .give value | .evaluate value => some value
  | .mark _ => none
  | .indented line => line.term?

/-- The type of a line, if it has one. -/
def type? : Line → Option Ty
  | .declare _ type _ => some type
  | .assign _ _ _ | .check _ _ | .give _ | .evaluate _ | .mark _ => none
  | .indented line => line.type?

end Line

end Rust

namespace TypedExpr

open Rust

/-- The place that an expression names, if it names one that has text. -/
def place? : TypedExpr → Option (Local × List String × Ty)
  | .binding _ _ (.binding symbol) => if chain symbol.name [] = "" then none else some (symbol, [], symbol.type)
  | .field _ root fields type => if chain root.name fields = "" then none else some (root, fields, type)
  | _ => none

/-- A term as an operand, by the expression that it is for. -/
def operandTerm (e : TypedExpr) (term : Term) : Term :=
  if e.isBinary then .group term else term

/-- The term of a prefix operation. -/
def unaryTerm (op : UnaryOp) (e : TypedExpr) (term : Term) (type : Ty) : Term :=
  match op with
  | .dereference => .target (.reading type) (e.operandTerm term) type
  | .reference =>
    match e.place? with
    | some (root, fields, type) => .path .borrowed root fields type
    | none => .borrow (e.operandTerm term)
  | .negate | .not => .unary op (e.operandTerm term)

/-- The term of a call of a builtin function. -/
def builtinTerm (name : String) (typeArgs : List Ty) (args : List TypedExpr) (terms : List Term) : Term :=
  if name = "some" then .some (terms.headD default)
  else if name = "none" then .none (typeArgs.headD default)
  else
    .method (if (args.headD default).isOperation then .group (terms.headD default) else terms.headD default) name
      (if name = "expect" then [.borrow (terms.tail.headD default)] else terms.tail)

/-- The term of a call. -/
def callTerm (target : Referent) (typeArgs : List Ty) (args : List TypedExpr) (terms : List Term) : Term :=
  match target with
  | .binding symbol => .call (.path .used symbol [] symbol.type) terms
  | .function signature =>
    if signature.isBuiltin then builtinTerm signature.name.name typeArgs args terms
    else .call (.item signature.name typeArgs) terms

mutual

/-- The Rust term of an expression. -/
def term : TypedExpr → Term
  | .literal _ value => .literal value
  | .binding _ _ (.binding symbol) => .path (.reading symbol.type) symbol [] symbol.type
  | .binding _ _ (.function signature) => .item signature.name []
  | .field _ root fields type => .path (.reading type) root fields type
  | .call _ _ typeArgs args target _ => callTerm target (typeArgs.map (·.type)) args (terms args)
  | .init _ _ fields struct => .construct struct (fields.map (·.name)) (initTerms fields)
  | .unary _ op inner type => unaryTerm op inner inner.term type
  | .binary _ op left right _ => .binary op (left.operandTerm left.term) (right.operandTerm right.term)
  | .paren _ inner => .group inner.term

def terms : List TypedExpr → List Term
  | [] => []
  | e :: es => e.term :: terms es

def initTerms : List (FieldInit TypedExpr) → List Term
  | [] => []
  | ⟨_, _, value⟩ :: fields => value.term :: initTerms fields

end

/-- The term of a condition. -/
def conditionTerm (e : TypedExpr) : Term :=
  if e.showsInit then .group e.term else e.term

end TypedExpr

section

open Rust

mutual

/-- The Rust lines of a statement. -/
def TypedStmt.rustLines : TypedStmt → List Line
  | .block body => .mark .opening :: blockRustLines body ++ [.mark .closing]
  | .letBinding symbol type value => [.declare symbol type.type value.term]
  | .assign _ target fields value => [.assign target fields value.term]
  | .ifChain _ branches otherwise => branchRustLines .branch branches ++ elseRustLines otherwise ++ [.mark .closing]
  | .whileLoop _ condition body => .check .loop condition.conditionTerm :: blockRustLines body ++ [.mark .closing]
  | .returnValue _ none => [.mark .leave]
  | .returnValue _ (some value) => [.give value.term]
  | .breakLoop _ => [.mark .breakLoop]
  | .continueLoop _ => [.mark .continueLoop]
  | .expression _ value => [.evaluate value.term]

def blockRustLines : Block TypedStmt → List Line
  | ⟨_, statements⟩ => (allRustLines statements).map .indented

def allRustLines : List TypedStmt → List Line
  | [] => []
  | stmt :: others => stmt.rustLines ++ allRustLines others

def branchRustLines (guard : Guard) : List (Branch TypedExpr TypedStmt) → List Line
  | [] => []
  | ⟨_, condition, body⟩ :: others =>
    .check guard condition.conditionTerm :: blockRustLines body ++ branchRustLines .nextBranch others

def elseRustLines : Option (Block TypedStmt) → List Line
  | none => []
  | some body => .mark .otherwise :: blockRustLines body

end

/-- The first Rust line of a function, by the spelling of the items in it. -/
def Signature.rustHeader (signature : Signature) : String :=
  let typeParams := signature.typeParams.map fun param => identifier param.name ++ ": Clone"
  let params := signature.params.map fun param => "mut " ++ identifier param.1 ++ ": " ++ param.2.rustText spell
  "pub fn " ++ identifier signature.name.name ++
    (if typeParams.isEmpty then "" else "<" ++ ", ".intercalate typeParams ++ ">") ++
    "(" ++ ", ".intercalate params ++ ")" ++
    (if signature.result = .unit then "" else " -> " ++ signature.result.rustText spell) ++ " \x7b"

end

theorem Ty.rustTexts_eq_map (types : List Ty) : Ty.rustTexts spell types = types.map (Ty.rustText spell) :=
  eq_map_of_cons rfl fun _ _ => rfl

theorem Ty.forall_mem_itemsList {p : ItemName → Prop} :
    (∀ name ∈ Ty.itemsList types, p name) ↔ ∀ type ∈ types, ∀ name ∈ type.items, p name := by
  have hitems : Ty.itemsList types = types.flatMap Ty.items := eq_flatMap_of_cons rfl fun _ _ => rfl
  rw [hitems, forall_mem_flatMap]

namespace Rust.Term

theorem printAll_eq_map (terms : List Term) : printAll spell terms = terms.map (print spell) :=
  eq_map_of_cons rfl fun _ _ => rfl

theorem forall_mem_itemsList {p : ItemName → Prop} {terms : List Term} :
    (∀ name ∈ itemsList terms, p name) ↔ ∀ term ∈ terms, ∀ name ∈ term.items, p name := by
  have hitems : itemsList terms = terms.flatMap items := eq_flatMap_of_cons rfl fun _ _ => rfl
  rw [hitems, forall_mem_flatMap]

theorem forall_mem_accessesList {p : Access × Ty → Prop} {terms : List Term} :
    (∀ entry ∈ accessesList terms, p entry) ↔ ∀ term ∈ terms, ∀ entry ∈ term.accesses, p entry := by
  have haccesses : accessesList terms = terms.flatMap accesses := eq_flatMap_of_cons rfl fun _ _ => rfl
  rw [haccesses, forall_mem_flatMap]

/-- Induction over a term: the terms inside it have the property already. -/
@[elab_as_elim] theorem induct {motive : Term → Prop} (literal : ∀ value, motive (.literal value))
    (item : ∀ name typeArgs, motive (.item name typeArgs))
    (path : ∀ access root fields type, motive (.path access root fields type))
    (target : ∀ access pointer type, motive pointer → motive (.target access pointer type))
    (borrow : ∀ operand, motive operand → motive (.borrow operand))
    (unary : ∀ op operand, motive operand → motive (.unary op operand))
    (binary : ∀ op left right, motive left → motive right → motive (.binary op left right))
    (group : ∀ inner, motive inner → motive (.group inner))
    (call : ∀ callee args, motive callee → (∀ arg ∈ args, motive arg) → motive (.call callee args))
    (method : ∀ receiver name args, motive receiver → (∀ arg ∈ args, motive arg) → motive (.method receiver name args))
    (construct : ∀ struct fields values, (∀ value ∈ values, motive value) → motive (.construct struct fields values))
    (some : ∀ value, motive value → motive (.some value)) (none : ∀ type, motive (.none type)) (term : Term) :
    motive term :=
  @Term.rec motive (fun terms => ∀ term ∈ terms, motive term)
    literal item path target borrow unary binary group call method construct some none
    (forall_mem_nil _) forall_mem_cons_of term

end Rust.Term

variable {spell spell' : ItemName → String}

theorem Ty.rustTexts_congr
    (htypes : ∀ type ∈ types, (∀ name ∈ type.items, spell name = spell' name) →
      type.rustText spell = type.rustText spell')
    (h : ∀ name ∈ Ty.itemsList types, spell name = spell' name) :
      Ty.rustTexts spell types = Ty.rustTexts spell' types := by
  rw [rustTexts_eq_map, rustTexts_eq_map]
  exact map_congr_left fun type htype => htypes type htype (forall_mem_itemsList.1 h type htype)

/-- The text of a type depends on the spelling of its items alone. -/
theorem Ty.rustText_congr (type : Ty) (h : ∀ name ∈ type.items, spell name = spell' name) :
    type.rustText spell = type.rustText spell' := by
  induction type using Ty.induct with
  | primitive | param => rfl
  | struct name => exact h name (mem_singleton_self name)
  | opaqueType name args ih => rw [rustText, rustText, rustTexts_congr ih h]
  | array element length ih => rw [rustText, rustText, ih h]
  | function params result ihParams ihResult =>
    obtain ⟨hparams, hresult⟩ := forall_mem_append.1 h
    rw [rustText, rustText, rustTexts_congr ihParams hparams, ihResult hresult]
  | reference target ih => rw [rustText, rustText, ih h]

/-- The text of a term depends on the spelling of its items alone. -/
theorem Rust.Term.print_congr (term : Term) (h : ∀ name ∈ term.items, spell name = spell' name) :
    term.print spell = term.print spell' := by
  have hall : ∀ {terms : List Term}, (∀ term ∈ terms, (∀ name ∈ term.items, spell name = spell' name) →
        term.print spell = term.print spell') →
      (∀ name ∈ itemsList terms, spell name = spell' name) → printAll spell terms = printAll spell' terms := by
    intro terms hterms hitems
    rw [printAll_eq_map, printAll_eq_map]
    exact map_congr_left fun term hterm => hterms term hterm (forall_mem_itemsList.1 hitems term hterm)
  induction term using Rust.Term.induct with
  | literal | path => rfl
  | item name typeArgs =>
    obtain ⟨hname, htypes⟩ := forall_mem_cons.1 h
    rw [print, print, hname, Ty.rustTexts_congr (fun type _ => type.rustText_congr) htypes]
  | target _ _ _ ih | borrow _ ih | unary _ _ ih | group _ ih | some _ ih => rw [print, print, ih h]
  | binary op left right ihLeft ihRight =>
    obtain ⟨hleft, hright⟩ := forall_mem_append.1 h
    rw [print, print, ihLeft hleft, ihRight hright]
  | call callee args ihCallee ihArgs =>
    obtain ⟨hcallee, hargs⟩ := forall_mem_append.1 h
    rw [print, print, ihCallee hcallee, hall ihArgs hargs]
  | method receiver name args ihReceiver ihArgs =>
    obtain ⟨hreceiver, hargs⟩ := forall_mem_append.1 h
    rw [print, print, ihReceiver hreceiver, hall ihArgs hargs]
  | construct struct fields values ih =>
    obtain ⟨hstruct, hvalues⟩ := forall_mem_cons.1 h
    rw [print, print, hstruct, hall ih hvalues]
  | none type => rw [print, print, type.rustText_congr h]

namespace TypedExpr

theorem terms_eq_map (es : List TypedExpr) : terms es = es.map term :=
  eq_map_of_cons rfl fun _ _ => rfl

theorem initTerms_eq_map (fields : List (FieldInit TypedExpr)) : initTerms fields = fields.map (·.value.term) :=
  eq_map_of_cons rfl fun _ _ => rfl

end TypedExpr

namespace Rust

/-- A step of the backend gives nothing but this value. -/
def Gives {α : Type} (x : Except Failure α) (a : α) : Prop :=
  ∀ b, x = .ok b → b = a

namespace Gives

variable {α β : Type} {x : Except Failure α} {a : α} {b : β}

theorem ok (a : α) : Gives (.ok a) a :=
  fun _ h => (Except.ok.inj h).symm

theorem error (failure : Failure) : Gives (.error failure) a := by
  intro _ h
  cases h

theorem cannotLower (construct : Construct) (loc : Option Location) (hint : Option String) :
    Gives (cannotLower construct loc hint) a :=
  error _

theorem bind {next : α → Except Failure β} (hx : Gives x a) (hnext : Gives (next a) b) : Gives (x >>= next) b := by
  intro c hc
  obtain ⟨_, ha, hc⟩ := bind_eq_ok_iff.1 hc
  rw [hx _ ha] at hc
  exact hnext c hc

theorem ite {p : Prop} [Decidable p] {y : Except Failure α} (hx : p → Gives x a) (hy : ¬p → Gives y a) :
    Gives (if p then x else y) a := by
  split
  · next hp => exact hx hp
  · next hp => exact hy hp

theorem mapM {f : α → Except Failure β} {g : α → β} {as : List α} (h : ∀ a ∈ as, Gives (f a) (g a)) :
    Gives (as.mapM f) (as.map g) :=
  forall_mem_induct as h (ok []) fun _ _ hfirst ih => by
    rw [mapM_cons]
    exact hfirst.bind (ih.bind (ok _))

end Gives

namespace Setting

variable (setting : Setting)

theorem gives_types {loc : Option Location}
    (h : ∀ type ∈ types, Gives (setting.type loc type) (type.rustText setting.itemPath)) :
    Gives (setting.types loc types) (Ty.rustTexts setting.itemPath types) := by
  rw [types_eq_mapM, Ty.rustTexts_eq_map]
  exact .mapM h

theorem gives_type (type : Ty) (loc : Option Location) :
    Gives (setting.type loc type) (type.rustText setting.itemPath) := by
  induction type using Ty.induct with
  | primitive type =>
    cases type with
    | other name => exact .error _
    | _ => exact .ok _
  | struct name => exact .ok _
  | opaqueType name args ih =>
    unfold Setting.type
    refine .ite (fun _ => ?_) fun _ => .cannotLower _ _ _
    cases args with
    | nil => exact .error _
    | cons arg args => exact (ih arg mem_cons_self).bind (.ok _)
  | param name => exact .ok _
  | array element length ih => exact ih.bind (.ok _)
  | function params result ihParams ihResult =>
    rw [Setting.type, Ty.rustText]
    refine (setting.gives_types ihParams).bind ?_
    split
    · rw [String.append_empty]
      exact .ok _
    · rw [← String.append_assoc]
      exact ihResult.bind (.ok _)
  | reference target ih => exact ih.bind (.ok _)

theorem read_eq_text (place : String) (type : Ty) : read place type = (Access.reading type).text place := by
  unfold read Access.reading
  split <;> rfl

theorem print_operandTerm (e : TypedExpr) (term : Term) :
    (e.operandTerm term).print spell = operand e (term.print spell) := by
  unfold TypedExpr.operandTerm operand
  split <;> rfl

/-- The place of an expression is the one to which references are taken. -/
theorem place?_filter (e : TypedExpr) :
    (place? e).filter (· ≠ "") = e.place?.map fun place => chain place.1.name place.2.1 := by
  have hplace : ∀ (root : Local) (fields : List String) (type : Ty), (some (chain root.name fields)).filter (· ≠ "") =
      (if chain root.name fields = "" then none else some (root, fields, type)).map
        fun place => chain place.1.name place.2.1 := by
    intro root fields type
    by_cases hempty : chain root.name fields = ""
    · rw [if_pos hempty, hempty]
      rfl
    · rw [if_neg hempty, Option.filter_some, if_pos (decide_eq_true hempty)]
      rfl
  cases e with
  | binding loc path referent =>
    cases referent with
    | binding symbol => exact hplace symbol [] symbol.type
    | function signature => rfl
  | field loc root fields type => exact hplace root fields type
  | _ => rfl

theorem print_unaryTerm (op : UnaryOp) (e : TypedExpr) (term : Term) (type : Ty) :
    (e.unaryTerm op term type).print spell = unaryText op e (term.print spell) type := by
  cases op with
  | dereference =>
    rw [unaryText, ← print_operandTerm, TypedExpr.unaryTerm, Access.reading]
    split <;> rfl
  | reference =>
    rw [unaryText, place?_filter, ← print_operandTerm, TypedExpr.unaryTerm]
    cases e.place? <;> rfl
  | negate | not =>
    rw [unaryText, ← print_operandTerm]
    rfl

theorem gives_builtinCall (loc : Location) (name : ItemName) (typeArgs : List Ty) (args : List TypedExpr)
    (terms : List Term) :
    Gives (setting.builtinCall loc name typeArgs args (terms.map (·.print setting.itemPath)))
      ((TypedExpr.builtinTerm name.name typeArgs args terms).print setting.itemPath) := by
  unfold builtinCall TypedExpr.builtinTerm
  refine .ite (fun _ => .cannotLower _ _ _) fun _ => .ite (fun hsome => ?some) fun hsome =>
    .ite (fun hnone => ?none) fun hnone => .ite (fun _ => ?method) fun _ => .cannotLower _ _ _
  case some =>
    rw [if_pos hsome]
    cases terms with
    | nil => exact .error _
    | cons term terms => exact .ok _
  case none =>
    rw [if_neg hsome, if_pos hnone]
    cases typeArgs with
    | nil => exact .error _
    | cons type types => exact (setting.gives_type type _).bind (.ok _)
  case method =>
    rw [if_neg hsome, if_neg hnone]
    cases args with
    | nil => exact .error _
    | cons arg args =>
      cases terms with
      | nil => exact .error _
      | cons term terms =>
        have hreceiver : (if arg.isOperation then Term.group term else term).print setting.itemPath =
            if arg.isOperation then "(" ++ term.print setting.itemPath ++ ")" else term.print setting.itemPath := by
          split <;> rfl
        rw [headD_cons, headD_cons, tail_cons, Term.print, hreceiver, Term.printAll_eq_map]
        by_cases hexpect : name.name = "expect"
        · simp only [if_pos hexpect]
          cases terms with
          | nil => exact .error _
          | cons message terms => exact .ok _
        · simp only [if_neg hexpect]
          exact .ok _

theorem gives_call (loc : Location) (target : Referent) (typeArgs : List Ty) (args : List TypedExpr)
    (terms : List Term) :
    Gives (setting.call loc target typeArgs args (terms.map (·.print setting.itemPath)))
      ((TypedExpr.callTerm target typeArgs args terms).print setting.itemPath) := by
  cases target with
  | binding symbol =>
    rw [call, TypedExpr.callTerm, Term.print, Term.printAll_eq_map]
    exact .ok _
  | function signature =>
    rw [call, TypedExpr.callTerm]
    by_cases hbuiltin : signature.isBuiltin
    · rw [if_pos hbuiltin, if_pos hbuiltin]
      exact setting.gives_builtinCall loc signature.name typeArgs args terms
    · rw [if_neg hbuiltin, if_neg hbuiltin, Term.print, Term.print, Term.printAll_eq_map]
      refine (setting.gives_types fun type _ => setting.gives_type type _).bind ?_
      cases typeArgs <;> exact .ok _

/-- The Rust text of an expression is its term, printed. -/
theorem gives_expr (e : TypedExpr) : Gives (setting.expr e) (e.term.print setting.itemPath) := by
  induction e using TypedExpr.induct with
  | literal loc value => exact .ok _
  | binding loc path referent =>
    cases referent with
    | binding symbol =>
      rw [expr, referent, read_eq_text]
      exact .ok _
    | function signature =>
      refine .ite (fun _ => .cannotLower _ _ _) fun _ => ?_
      rw [TypedExpr.term, Term.print, isEmpty_nil, if_pos rfl, String.append_empty]
      exact .ok _
  | field loc root fields type =>
    rw [expr, read_eq_text]
    exact .ok _
  | call loc callee typeArgs args target type ih =>
    rw [expr, exprs_eq_mapM, TypedExpr.term, TypedExpr.terms_eq_map]
    refine (Gives.mapM ih).bind ?_
    have hcall := setting.gives_call loc target (typeArgs.map (·.type)) args (args.map TypedExpr.term)
    rwa [map_map] at hcall
  | init loc path fields struct ih =>
    have htexts : Gives (setting.inits fields) (List.zipWith (fun field text => identifier field ++ ": " ++ text)
        (fields.map (·.name)) (Term.printAll setting.itemPath (TypedExpr.initTerms fields))) :=
      forall_mem_induct fields ih (.ok _) fun _ _ hfirst ih => hfirst.bind (ih.bind (.ok _))
    rw [expr, TypedExpr.term, Term.print]
    refine htexts.bind ?_
    split
    · exact .ok _
    · rw [← String.append_assoc, ← String.append_assoc]
      exact .ok _
  | unary loc op operand type ih =>
    rw [expr, TypedExpr.term, print_unaryTerm]
    exact ih.bind (.ok _)
  | binary loc op left right type ihLeft ihRight =>
    rw [expr, TypedExpr.term, Term.print, print_operandTerm, print_operandTerm]
    exact ihLeft.bind (ihRight.bind (.ok _))
  | paren loc inner ih => exact ih.bind (.ok _)

theorem gives_condition (e : TypedExpr) : Gives (setting.condition e) (e.conditionTerm.print setting.itemPath) := by
  have hprint : e.conditionTerm.print setting.itemPath =
      if e.showsInit then "(" ++ e.term.print setting.itemPath ++ ")" else e.term.print setting.itemPath := by
    unfold TypedExpr.conditionTerm
    split <;> rfl
  rw [hprint]
  exact (setting.gives_expr e).bind (.ok _)

theorem gives_block (hstmts : ∀ stmt ∈ body.statements,
      Gives (setting.stmt stmt) (stmt.rustLines.map (·.print setting.itemPath))) :
    Gives (setting.block body) ((blockRustLines body).map (·.print setting.itemPath)) := by
  obtain ⟨loc, stmts⟩ := body
  have hlist : Gives (setting.stmts stmts) ((allRustLines stmts).map (·.print setting.itemPath)) := by
    refine forall_mem_induct stmts hstmts (.ok _) fun _ _ hfirst ih => ?_
    rw [Setting.stmts, allRustLines, map_append]
    exact hfirst.bind (ih.bind (.ok _))
  have hindented : (blockRustLines ⟨loc, stmts⟩).map (·.print setting.itemPath) =
      indented ((allRustLines stmts).map (·.print setting.itemPath)) := by
    rw [blockRustLines, indented, map_map, map_map]
    rfl
  rw [Setting.block, hindented]
  exact hlist.bind (.ok _)

theorem gives_branches {branches : List (Branch TypedExpr TypedStmt)} (hbodies : ∀ branch ∈ branches,
      Gives (setting.block branch.body) ((blockRustLines branch.body).map (·.print setting.itemPath)))
    {opening : String} {guard : Guard} (hguard : opening ++ "if " = guard.text) :
    Gives (setting.branches opening branches) ((branchRustLines guard branches).map (·.print setting.itemPath)) := by
  induction branches generalizing opening guard with
  | nil => exact .ok _
  | cons branch branches ih =>
    obtain ⟨hfirst, hothers⟩ := forall_mem_cons.1 hbodies
    rw [Setting.branches, branchRustLines, map_append, map_cons, Line.print, ← hguard]
    exact (setting.gives_condition branch.condition).bind (hfirst.bind ((ih hothers rfl).bind (.ok _)))

/-- The Rust text of a statement is its lines, printed. -/
theorem gives_stmt (stmt : TypedStmt) : Gives (setting.stmt stmt) (stmt.rustLines.map (·.print setting.itemPath)) := by
  induction stmt using TypedStmt.induct with
  | block body ih =>
    rw [Setting.stmt, TypedStmt.rustLines, map_append, map_cons]
    exact (setting.gives_block ih).bind (.ok _)
  | letBinding symbol type value => exact (setting.gives_type _ _).bind ((setting.gives_expr value).bind (.ok _))
  | assign loc target fields value => exact (setting.gives_expr value).bind (.ok _)
  | ifChain loc branches otherwise ihBranches ihOtherwise =>
    have hlast : Gives (setting.otherwise otherwise) ((elseRustLines otherwise).map (·.print setting.itemPath)) := by
      cases otherwise with
      | none => exact .ok _
      | some body => exact (setting.gives_block (ihOtherwise body rfl)).bind (.ok _)
    rw [Setting.stmt, TypedStmt.rustLines, map_append, map_append]
    refine (setting.gives_branches (fun branch hbranch => ?_) rfl).bind (hlast.bind (.ok _))
    exact setting.gives_block (ihBranches branch hbranch)
  | whileLoop loc condition body ih =>
    rw [Setting.stmt, TypedStmt.rustLines, map_append, map_cons]
    exact (setting.gives_condition condition).bind ((setting.gives_block ih).bind (.ok _))
  | returnValue loc value =>
    cases value with
    | none => exact .ok _
    | some value => exact (setting.gives_expr value).bind (.ok _)
  | breakLoop | continueLoop => exact .ok _
  | expression loc value => exact (setting.gives_expr value).bind (.ok _)

/-- The lines of a block are those of its statements. -/
theorem gives_blockRustLines (body : Block TypedStmt) :
    Gives (setting.block body) ((blockRustLines body).map (·.print setting.itemPath)) :=
  setting.gives_block fun stmt _ => setting.gives_stmt stmt

theorem gives_functionHeader (signature : Signature) :
    Gives (functionHeader setting signature) (signature.rustHeader setting.itemPath) := by
  have hparams : Gives (signature.params.mapM fun param => do
        let type ← setting.type (some signature.loc) param.2
        return "mut " ++ identifier param.1 ++ ": " ++ type)
      (signature.params.map fun param => "mut " ++ identifier param.1 ++ ": " ++ param.2.rustText setting.itemPath) :=
    .mapM fun param _ => (setting.gives_type param.2 _).bind (.ok _)
  unfold Signature.rustHeader
  refine hparams.bind (Gives.ite (fun hunit => ?_) fun hunit => ?_)
  · rw [if_pos hunit]
    exact .ok _
  · rw [if_neg hunit]
    exact (setting.gives_type _ _).bind (.ok _)

end Setting

/-- Where the text of a function is written. -/
def functionSetting (prelude : Option String) (moduleName : String) (signature : Signature) (body : Block TypedStmt) :
    Setting :=
  ⟨prelude, moduleName, shadowedNames signature body⟩

/-- The lines of a function are its header and those of its body. -/
theorem gives_functionLines (prelude : Option String) (moduleName : String) (shadowed : List String)
    (signature : Signature)
    (body : Block TypedStmt) :
    Gives (functionLines ⟨prelude, moduleName, shadowed⟩ signature body)
      (signature.rustHeader (functionSetting prelude moduleName signature body).itemPath ::
        (blockRustLines body).map (·.print (functionSetting prelude moduleName signature body).itemPath) ++ ["\x7d"]) :=
  ((functionSetting prelude moduleName signature body).gives_functionHeader signature).bind
    (((functionSetting prelude moduleName signature body).gives_blockRustLines body).bind (.ok _))

/-- The parts of a line have these properties. -/
def Line.Holds (P : Term → Prop) (Q : Ty → Prop) (line : Line) : Prop :=
  (∀ term ∈ line.term?, P term) ∧ ∀ type ∈ line.type?, Q type

namespace Line

variable {P : Term → Prop} {Q : Ty → Prop}

theorem holds_mark (kind : Mark) : (Line.mark kind).Holds P Q :=
  ⟨by rintro _ ⟨⟩, by rintro _ ⟨⟩⟩

theorem holds_of_term {line : Line} {term : Term} (hterm : line.term? = some term) (htype : line.type? = none)
    (h : P term) :
    line.Holds P Q := by
  refine ⟨fun other hother => ?_, fun type hmem => ?_⟩
  · rw [hterm] at hother
    rwa [← Option.mem_some.1 hother]
  · rw [htype] at hmem
    cases hmem

end Line

end Rust

section

open Rust

variable {P : Term → Prop} {Q : Ty → Prop}

/-- What is written for a node has these properties. -/
def TypedNode.Holds (P : Term → Prop) (Q : Ty → Prop) : TypedNode → Prop
  | .expr e => P e.term
  | .type written => Q written.type
  | .unresolved _ | .stmt _ | .item _ | .plain _ _ => True

theorem TypedExpr.holds_of_nodes {e : TypedExpr} (h : ∀ node ∈ e.nodes, node.Holds P Q) : P e.term := by
  cases e <;> exact h _ mem_cons_self

theorem TypedTypeExpr.holds_of_nodes {type : TypedTypeExpr} (h : ∀ node ∈ type.nodes, node.Holds P Q) :
    Q type.type := by
  cases type <;> exact h _ mem_cons_self

theorem holds_blockRustLines
    (hstmts : ∀ stmt ∈ body.statements, (∀ node ∈ stmt.nodes, node.Holds P Q) → ∀ line ∈ stmt.rustLines, line.Holds P Q)
    (h : ∀ node ∈ blockNodes body, node.Holds P Q) : ∀ line ∈ blockRustLines body, line.Holds P Q := by
  obtain ⟨loc, stmts⟩ := body
  have hnodes := (forall_mem_blockNodes fun _ _ => trivial).1 h
  have hlist : ∀ line ∈ allRustLines stmts, line.Holds P Q := by
    clear h
    induction stmts with
    | nil => exact forall_mem_nil _
    | cons stmt stmts ih =>
      obtain ⟨hfirst, hothers⟩ := forall_mem_cons.1 hstmts
      obtain ⟨hfirstNodes, hotherNodes⟩ := forall_mem_cons.1 hnodes
      exact forall_mem_append.2 ⟨hfirst hfirstNodes, ih hothers hotherNodes⟩
  exact forall_mem_map.2 hlist

variable (hgroup : ∀ term, P term → P (.group term))
include hgroup

theorem TypedExpr.holds_conditionTerm {e : TypedExpr} (h : ∀ node ∈ e.nodes, node.Holds P Q) : P e.conditionTerm := by
  unfold conditionTerm
  split
  · exact hgroup _ (holds_of_nodes h)
  · exact holds_of_nodes h

theorem holds_branchRustLines {branches : List (Branch TypedExpr TypedStmt)} {guard : Guard}
    (hconditions : ∀ branch ∈ branches, ∀ node ∈ branch.condition.nodes, node.Holds P Q)
    (hbodies : ∀ branch ∈ branches, ∀ line ∈ blockRustLines branch.body, line.Holds P Q) :
    ∀ line ∈ branchRustLines guard branches, line.Holds P Q := by
  induction branches generalizing guard with
  | nil => exact forall_mem_nil _
  | cons branch branches ih =>
    obtain ⟨hcondition, hconditions⟩ := forall_mem_cons.1 hconditions
    obtain ⟨hbody, hbodies⟩ := forall_mem_cons.1 hbodies
    refine forall_mem_append.2 ⟨forall_mem_cons.2 ⟨?_, hbody⟩, ih hconditions hbodies⟩
    exact Line.holds_of_term rfl rfl (TypedExpr.holds_conditionTerm hgroup hcondition)

/-- The lines of a statement have the properties of its nodes. -/
theorem TypedStmt.holds_rustLines (stmt : TypedStmt) (h : ∀ node ∈ stmt.nodes, node.Holds P Q) :
    ∀ line ∈ stmt.rustLines, line.Holds P Q := by
  induction stmt using TypedStmt.induct with
  | block body ih =>
    rw [TypedStmt.nodes] at h
    rw [rustLines, cons_append]
    refine forall_mem_cons.2 ⟨Line.holds_mark _, forall_mem_append.2 ⟨holds_blockRustLines ih h, ?_⟩⟩
    exact forall_mem_singleton.2 (Line.holds_mark _)
  | letBinding symbol type value =>
    obtain ⟨htype, hexpr⟩ := forall_mem_append.1 (forall_mem_cons.1 h).2
    refine forall_mem_singleton.2 ⟨?_, ?_⟩
    · rintro _ ⟨⟩
      exact TypedExpr.holds_of_nodes hexpr
    · rintro _ ⟨⟩
      exact TypedTypeExpr.holds_of_nodes htype
  | ifChain loc branches otherwise ihBranches ihOtherwise =>
    rw [TypedStmt.nodes] at h
    obtain ⟨hbranches, hlast⟩ := forall_mem_append.1 (forall_mem_cons.1 h).2
    obtain ⟨hconditions, hbodies⟩ := (forall_mem_branchesNodes fun _ _ => trivial).1 hbranches
    rw [rustLines]
    refine forall_mem_append.2 ⟨forall_mem_append.2 ⟨?_, ?_⟩, forall_mem_singleton.2 (Line.holds_mark _)⟩
    · exact holds_branchRustLines hgroup hconditions fun branch hbranch =>
        holds_blockRustLines (ihBranches branch hbranch) (hbodies branch hbranch)
    · cases otherwise with
      | none => exact forall_mem_nil _
      | some body => exact forall_mem_cons.2 ⟨Line.holds_mark _, holds_blockRustLines (ihOtherwise body rfl) hlast⟩
  | whileLoop loc condition body ih =>
    rw [TypedStmt.nodes] at h
    obtain ⟨hcondition, hbody⟩ := forall_mem_append.1 (forall_mem_cons.1 h).2
    rw [rustLines, cons_append]
    refine forall_mem_cons.2 ⟨?_, forall_mem_append.2 ⟨?_, forall_mem_singleton.2 (Line.holds_mark _)⟩⟩
    · exact Line.holds_of_term rfl rfl (TypedExpr.holds_conditionTerm hgroup hcondition)
    · exact holds_blockRustLines ih hbody
  | assign loc target fields value | expression loc value =>
    rw [TypedStmt.nodes] at h
    exact forall_mem_singleton.2 (Line.holds_of_term rfl rfl
      (TypedExpr.holds_of_nodes (forall_mem_cons.1 h).2))
  | returnValue loc value =>
    cases value with
    | none => exact forall_mem_singleton.2 (Line.holds_mark _)
    | some value =>
      rw [TypedStmt.nodes] at h
      exact forall_mem_singleton.2 (Line.holds_of_term rfl rfl
        (TypedExpr.holds_of_nodes (forall_mem_cons.1 h).2))
  | breakLoop | continueLoop => exact forall_mem_singleton.2 (Line.holds_mark _)

/-- The lines of a body have the properties of its nodes. -/
theorem Block.holds_rustLines (h : ∀ node ∈ blockNodes body, node.Holds P Q) :
    ∀ line ∈ blockRustLines body, line.Holds P Q :=
  holds_blockRustLines (fun stmt _ => stmt.holds_rustLines hgroup) h

end

end Smpl
