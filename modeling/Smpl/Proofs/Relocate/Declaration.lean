import Smpl.Proofs.Checker.TypeExpr
import Smpl.Proofs.Relocate.Graph
import Smpl.Typed.Declaration

namespace Smpl

open List

variable (move : Location → Location)

mutual

/-- Moves a written type with what it was found to denote. -/
def TypedTypeExpr.relocate : TypedTypeExpr → TypedTypeExpr
  | .named loc path args type => .named (move loc) path (relocateTypedTypes args) type
  | .array loc element length type => .array (move loc) element.relocate length type
  | .function loc params result type =>
    .function (move loc) (relocateTypedTypes params) (relocateTypedResult result) type

def relocateTypedTypes : List TypedTypeExpr → List TypedTypeExpr
  | [] => []
  | type :: types => type.relocate :: relocateTypedTypes types

def relocateTypedResult : Option TypedTypeExpr → Option TypedTypeExpr
  | none => none
  | some type => some type.relocate

end

def Signature.relocate (signature : Signature) : Signature :=
  { signature with loc := move signature.loc }

def StructInfo.relocate (info : StructInfo) : StructInfo :=
  { info with loc := move info.loc }

def StructDecl.relocate (struct : StructDecl) : StructDecl where
  name := struct.name
  fields := struct.fields.map (Member.relocate move (TypeExpr.relocate move))
  loc := move struct.loc

/-- The table with every value replaced by its image. -/
def Table.map {α β : Type} (g : α → β) (table : Table α) : Table β :=
  ⟨table.entries.map fun entry => (entry.1, g entry.2)⟩

def DeclaredTypes.relocate (types : DeclaredTypes) : DeclaredTypes where
  structs := types.structs.map (StructDecl.relocate move)
  opaques := types.opaques

/-- Moves all declarations of a program. -/
def Registry.relocate (registry : Registry) : Registry where
  graph := registry.graph.relocate move
  types := registry.types.relocate move
  structs := registry.structs.map (StructInfo.relocate move)
  functions := registry.functions.map (Signature.relocate move)

def TypeScope.relocate (scope : TypeScope) : TypeScope where
  graph := scope.graph.relocate move
  types := scope.types.relocate move
  moduleName := scope.moduleName
  typeNames := scope.typeNames

variable {move}

theorem relocateTypedTypes_eq_map (types : List TypedTypeExpr) :
    relocateTypedTypes move types = types.map (TypedTypeExpr.relocate move) :=
  eq_map_of_cons rfl fun _ _ => rfl

@[simp] theorem TypedTypeExpr.type_relocate (type : TypedTypeExpr) : (type.relocate move).type = type.type := by
  cases type <;> rfl

@[simp] theorem map_type_relocate (types : List TypedTypeExpr) :
    (types.map (TypedTypeExpr.relocate move)).map (·.type) = types.map (·.type) := by
  rw [map_map]
  exact map_congr_left fun type _ => type.type_relocate

namespace Table

variable {α β : Type} {g : α → β} (table : Table α)

theorem find?_map (key : String) : (table.map g).find? key = (table.find? key).map g :=
  lookup_map_snd g table.entries key

theorem putIn_map (entries : List (String × α)) (key : String) (value : α) :
    putIn key (g value) (entries.map fun entry => (entry.1, g entry.2)) =
      (putIn key value entries).map fun entry => (entry.1, g entry.2) := by
  induction entries with
  | nil => rfl
  | cons entry entries ih =>
    rw [map_cons, putIn, putIn, ih]
    by_cases hkey : entry.1 = key
    · rw [if_pos hkey, if_pos hkey, map_cons]
    · rw [if_neg hkey, if_neg hkey, map_cons]

theorem put_map (key : String) (value : α) :
    (table.map g).put key (g value) = (table.put key value).map g :=
  congrArg Table.mk (putIn_map table.entries key value)

theorem keys_map : (table.map g).keys = table.keys := by
  rw [keys, keys, map, map_map]
  rfl

theorem size_map : (table.map g).size = table.size := by
  rw [size, size, map, length_map]

theorem require_relocate (key : String) :
    (table.map g).require key = relocateOutcome move g (table.require key) := by
  rw [require, require, find?_map]
  cases table.find? key <;> rfl

theorem get_relocate (name : ItemName) :
    (table.map g).get name = relocateOutcome move g (table.get name) :=
  require_relocate table name.text

theorem mapM_relocate {γ δ : Type} {k : γ → δ} {step : α → Except Failure γ} {step' : β → Except Failure δ}
    (hstep : ∀ a, step' (g a) = relocateOutcome move k (step a)) :
    (table.map g).mapM step' = relocateOutcome move (Table.map k) (table.mapM step) := by
  rw [mapM, mapM]
  refine bind_relocate (Smpl.mapM_relocate fun entry _ => ?_) fun _ => rfl
  exact bind_relocate (hstep entry.2) fun _ => rfl

end Table

theorem mismatch_relocate {α β : Type} {g : α → β} (what : Mismatch) (loc : Location) :
    mismatch what (move loc) = relocateOutcome move g (mismatch what loc) := rfl

theorem expectType_relocate (what : Mismatch) (expected found : Ty) (loc : Location) :
    expectType what expected found (move loc) = relocateOutcome move id (expectType what expected found loc) := by
  unfold expectType
  split <;> rfl

theorem expectTypeArgs_relocate (name : String) (expected actual : Nat) (loc : Location) :
    expectTypeArgs name expected actual (move loc) =
      relocateOutcome move id (expectTypeArgs name expected actual loc) := by
  unfold expectTypeArgs
  split <;> rfl

theorem checkTypeParams_relocate (loc : Location) (seen names : List String) :
    checkTypeParams (move loc) seen names = relocateOutcome move id (checkTypeParams loc seen names) := by
  induction names generalizing seen with
  | nil => rfl
  | cons name names ih =>
    rw [checkTypeParams, checkTypeParams]
    split
    · rfl
    · split
      · rfl
      · exact ih (name :: seen)

theorem DeclaredTypes.add_relocate (types : DeclaredTypes) (owned : String × Item) :
    (types.relocate move).add (relocateOwned move owned) =
      relocateOutcome move (DeclaredTypes.relocate move) (types.add owned) := by
  obtain ⟨owner, item⟩ := owned
  cases item with
  | struct loc name fields =>
    have hput := Table.put_map (g := StructDecl.relocate move) types.structs (ItemName.mk owner name).text
      ⟨⟨owner, name⟩, fields, loc⟩
    simp [relocateOwned, Item.relocate, DeclaredTypes.add, DeclaredTypes.relocate, relocateOutcome, ← hput,
      StructDecl.relocate]
  | opaqueType loc name typeParams => exact bind_relocate (checkTypeParams_relocate loc [] typeParams) fun _ => rfl
  | use | function | builtin | other => rfl

theorem Graph.items_relocate (graph : Graph) : (graph.relocate move).items = graph.items.map (relocateOwned move) := by
  rw [Graph.items, Graph.items, Graph.relocate, flatMap_map, map_flatMap]
  refine congrArg (List.flatMap · graph.modules) (funext fun module_ => ?_)
  rw [GraphModule.relocate, Module.relocate, map_map, map_map]
  rfl

/-- Moved declarations give the same tables of types, moved. -/
theorem Graph.declaredTypes_relocate (graph : Graph) :
    (graph.relocate move).declaredTypes = relocateOutcome move (DeclaredTypes.relocate move) graph.declaredTypes := by
  rw [Graph.declaredTypes, Graph.declaredTypes, Graph.items_relocate]
  exact foldlM_relocate DeclaredTypes.add_relocate graph.items ⟨.empty, .empty⟩

namespace TypeScope

variable (scope : TypeScope)

theorem simple?_relocate (path : Path) :
    (scope.relocate move).simple? path = relocateOutcome move id (scope.simple? path) := by
  unfold simple?
  cases path.isMissing <;> cases path.isQualified <;> rfl

theorem undefinedType_relocate {α β : Type} {g : α → β} (path : Path) (loc : Location) :
    (scope.relocate move).undefinedType path (move loc) = relocateOutcome move g (scope.undefinedType path loc) := by
  have hcontains : (scope.relocate move).graph.contains path.name = scope.graph.contains path.name :=
    Graph.contains_relocate scope.graph path.name
  rw [undefinedType, undefinedType, hcontains]
  split
  · refine bind_relocate (mismatch_relocate (g := id) (.wrongMeaning path.text .module .type) loc) fun _ => ?_
    exact bind_relocate (Graph.visibleNames_relocate scope.graph scope.moduleName) fun _ => rfl
  · exact bind_relocate (Graph.visibleNames_relocate scope.graph scope.moduleName) fun _ => rfl

theorem resolveList_relocate {types : List TypeExpr}
    (h : ∀ type ∈ types, (scope.relocate move).resolve (type.relocate move) =
      relocateOutcome move (TypedTypeExpr.relocate move) (scope.resolve type)) :
    (scope.relocate move).resolveList (relocateTypes move types) =
      relocateOutcome move (List.map (TypedTypeExpr.relocate move)) (scope.resolveList types) := by
  rw [resolveList_eq_mapM, resolveList_eq_mapM, relocateTypes_eq_map]
  exact mapM_relocate h

/-- What a type denotes does not depend on where it is written, or on where anything else is. -/
theorem resolve_relocate (type : TypeExpr) :
    (scope.relocate move).resolve (type.relocate move) =
      relocateOutcome move (TypedTypeExpr.relocate move) (scope.resolve type) := by
  induction type using TypeExpr.induct with
  | named loc path args ih =>
    rw [TypeExpr.relocate, resolve, resolve, length_relocateTypes]
    refine bind_relocate (scope.simple?_relocate path) fun found => ?_
    cases found with
    | some type => exact bind_relocate (expectTypeArgs_relocate path.name 0 args.length loc) fun _ => rfl
    | none =>
      refine bind_relocate (Graph.resolvePath_relocate scope.graph scope.moduleName path (some loc)) fun found => ?_
      cases found with
      | none => exact scope.undefinedType_relocate path loc
      | some entry =>
        obtain ⟨owner, item⟩ := entry
        cases item with
        | struct _ name _ =>
          refine bind_relocate (expectTypeArgs_relocate path.text 0 args.length loc) fun _ => ?_
          exact bind_relocate (Table.get_relocate scope.types.structs ⟨owner, name⟩) fun _ => rfl
        | opaqueType _ name _ =>
          have hopaque : scope.types.opaques.get ⟨owner, name⟩ =
              relocateOutcome move id (scope.types.opaques.get ⟨owner, name⟩) := by
            rw [Table.get, Table.require]
            cases scope.types.opaques.find? (ItemName.mk owner name).text <;> rfl
          refine bind_relocate hopaque fun declared => ?_
          refine bind_relocate
            (expectTypeArgs_relocate path.text declared.typeParams.length args.length loc) fun _ => ?_
          refine bind_relocate (scope.resolveList_relocate ih) fun types => ?_
          simp [relocateOutcome, TypedTypeExpr.relocate, relocateTypedTypes_eq_map]
        | use | function | builtin | other => rfl
  | array loc element length ih =>
    rw [TypeExpr.relocate, resolve, resolve]
    refine bind_relocate ih fun element => ?_
    simp [relocateOutcome, TypedTypeExpr.relocate]
  | function loc params result ih ihResult =>
    rw [TypeExpr.relocate, resolve, resolve]
    refine bind_relocate (scope.resolveList_relocate ih) fun types => ?_
    have hresult : (scope.relocate move).resolveOption (relocateResult move result) =
        relocateOutcome move (relocateTypedResult move) (scope.resolveOption result) := by
      cases result with
      | none => rfl
      | some type => exact bind_relocate (ihResult type rfl) fun _ => rfl
    refine bind_relocate hresult fun result => ?_
    cases result <;> simp [relocateOutcome, TypedTypeExpr.relocate, relocateTypedTypes_eq_map, relocateTypedResult]
  | unknown node => rfl

theorem resolveOption_relocate (result : Option TypeExpr) :
    (scope.relocate move).resolveOption (result.map (TypeExpr.relocate move)) =
      relocateOutcome move (Option.map (TypedTypeExpr.relocate move)) (scope.resolveOption result) := by
  cases result with
  | none => rfl
  | some type => exact bind_relocate (scope.resolve_relocate type) fun _ => rfl

theorem fields_relocate (struct : String) (seen : List String) (members : List (Member TypeExpr)) :
    (scope.relocate move).fields struct seen (members.map (Member.relocate move (TypeExpr.relocate move))) =
      relocateOutcome move (List.map (Member.relocate move (TypedTypeExpr.relocate move)))
        (scope.fields struct seen members) := by
  induction members generalizing seen with
  | nil => rfl
  | cons member members ih =>
    rw [map_cons, fields, fields]
    cases hseen : seen.contains member.name with
    | true =>
      simp only [Member.relocate, hseen]
      rfl
    | false =>
      simp only [Member.relocate, hseen, Bool.false_eq_true, if_false]
      refine bind_relocate (scope.resolve_relocate member.type) fun type => ?_
      exact bind_relocate (ih (member.name :: seen)) fun _ => rfl

theorem params_relocate (seen members : List (Member TypeExpr)) :
    (scope.relocate move).params (seen.map (Member.relocate move (TypeExpr.relocate move)))
        (members.map (Member.relocate move (TypeExpr.relocate move))) =
      relocateOutcome move (List.map (Member.relocate move (TypedTypeExpr.relocate move)))
        (scope.params seen members) := by
  induction members generalizing seen with
  | nil => rfl
  | cons member members ih =>
    rw [map_cons, params, params]
    have hseen : (seen.map (Member.relocate move (TypeExpr.relocate move))).find?
          (fun other => other.name = (member.relocate move (TypeExpr.relocate move)).name) =
        (seen.find? fun other => other.name = member.name).map (Member.relocate move (TypeExpr.relocate move)) := by
      rw [List.find?_map]
      rfl
    rw [hseen]
    cases seen.find? fun other => other.name = member.name with
    | some first => rfl
    | none =>
      simp only [Option.map_none]
      refine bind_relocate (scope.resolve_relocate member.type) fun type => ?_
      exact bind_relocate (ih (member :: seen)) fun _ => rfl

end TypeScope

theorem Signature.ofHeader_relocate (moduleName : String) (loc : Location) (isBuiltin : Bool)
    (header : Header TypedTypeExpr) :
    Signature.ofHeader moduleName (move loc) isBuiltin (header.relocate move (TypedTypeExpr.relocate move)) =
      (Signature.ofHeader moduleName loc isBuiltin header).relocate move := by
  simp [Signature.ofHeader, Signature.relocate, Header.relocate, Header.typeParamsOf, Member.relocate,
    Function.comp_def]

namespace Graph

variable (graph : Graph) (types : DeclaredTypes)

theorem checkHeader_relocate (moduleName : String) (loc : Location) (header : Header TypeExpr) :
    (graph.relocate move).checkHeader (types.relocate move) moduleName (move loc)
        (header.relocate move (TypeExpr.relocate move)) =
      relocateOutcome move (Header.relocate move (TypedTypeExpr.relocate move))
        (graph.checkHeader types moduleName loc header) := by
  rw [checkHeader, checkHeader]
  refine bind_relocate (checkTypeParams_relocate loc [] header.typeParams) fun _ => ?_
  refine bind_relocate (TypeScope.params_relocate ⟨graph, types, moduleName, _⟩ [] header.params) fun params => ?_
  exact bind_relocate (TypeScope.resolveOption_relocate ⟨graph, types, moduleName, _⟩ header.result) fun _ => rfl

theorem structInfo_relocate (struct : StructDecl) :
    (graph.relocate move).structInfo (types.relocate move) (struct.relocate move) =
      relocateOutcome move (StructInfo.relocate move) (graph.structInfo types struct) := by
  rw [structInfo, structInfo]
  refine bind_relocate
    (TypeScope.fields_relocate ⟨graph, types, struct.name.moduleName, []⟩ struct.name.name [] struct.fields)
    fun fields => ?_
  simp [relocateOutcome, StructInfo.relocate, StructDecl.relocate, Member.relocate, Function.comp_def]

theorem signature?_relocate (owned : String × Item) :
    (graph.relocate move).signature? (types.relocate move) (relocateOwned move owned) =
      relocateOutcome move (List.map (Signature.relocate move)) (graph.signature? types owned) := by
  obtain ⟨owner, item⟩ := owned
  cases item with
  | function loc header body =>
    refine bind_relocate (checkHeader_relocate graph types owner loc header) fun header => ?_
    rw [Signature.ofHeader_relocate]
    rfl
  | builtin loc header =>
    refine bind_relocate (checkHeader_relocate graph types owner loc header) fun header => ?_
    rw [Signature.ofHeader_relocate]
    rfl
  | use | struct | opaqueType | other => rfl

/-- Moved headers give the same signatures, moved. -/
theorem signatures_relocate :
    (graph.relocate move).signatures (types.relocate move) =
      relocateOutcome move (List.map (Signature.relocate move)) (graph.signatures types) := by
  have hlists : (graph.items.map (relocateOwned move)).mapM ((graph.relocate move).signature? (types.relocate move)) =
      relocateOutcome move (List.map (List.map (Signature.relocate move)))
        (graph.items.mapM (graph.signature? types)) :=
    mapM_relocate fun owned _ => signature?_relocate graph types owned
  rw [signatures, signatures, items_relocate, hlists]
  cases graph.items.mapM (graph.signature? types) with
  | error failure => rfl
  | ok lists => simp [relocateOutcome, Except.map, map_flatten]

end Graph

theorem functionTable_relocate (signatures : List Signature) :
    functionTable (signatures.map (Signature.relocate move)) =
      (functionTable signatures).map (Signature.relocate move) := by
  have hfold : ∀ table : Table Signature,
      (signatures.map (Signature.relocate move)).foldl (fun table signature => table.put signature.name.text signature)
        (table.map (Signature.relocate move)) =
      (signatures.foldl (fun table signature => table.put signature.name.text signature) table).map
        (Signature.relocate move) := by
    induction signatures with
    | nil => exact fun _ => rfl
    | cons signature signatures ih =>
      intro table
      rw [map_cons, foldl_cons, foldl_cons, ← ih, ← Table.put_map]
      rfl
  exact hfold .empty

end Smpl
