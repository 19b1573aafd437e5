import Smpl.Proofs.Typing.Written

namespace Smpl

open List

variable {types : DeclaredTypes} {entry : String × Item} {graph : Graph}

/-- What an item declares as a struct. -/
def structDecl? : String × Item → Option StructDecl
  | (owner, .struct loc name fields) => some ⟨⟨owner, name⟩, fields, loc⟩
  | _ => none

/-- What an item declares as an opaque type. -/
def opaqueInfo? : String × Item → Option OpaqueInfo
  | (owner, .opaqueType _ name typeParams) => some ⟨⟨owner, name⟩, typeParams⟩
  | _ => none

theorem structDecl?_eq_some_iff {decl : StructDecl} :
    structDecl? entry = some decl ↔
      entry = (decl.name.moduleName, .struct decl.loc decl.name.name decl.fields) := by
  obtain ⟨owner, item⟩ := entry
  obtain ⟨⟨moduleName, name⟩, fields, loc⟩ := decl
  cases item <;> simp [structDecl?]
  tauto

theorem opaqueInfo?_eq_some_iff {info : OpaqueInfo} :
    opaqueInfo? entry = some info ↔
      ∃ loc, entry = (info.name.moduleName, .opaqueType loc info.name.name info.typeParams) := by
  obtain ⟨owner, item⟩ := entry
  obtain ⟨⟨moduleName, name⟩, typeParams⟩ := info
  cases item <;> simp [opaqueInfo?]
  tauto

namespace DeclaredTypes

theorem add_eq_ok_iff {after : DeclaredTypes} :
    types.add entry = .ok after ↔
      (∀ info ∈ opaqueInfo? entry, DistinctTypeNames info.typeParams) ∧
        after = ⟨(structDecl? entry).toList.foldl (fun table decl => table.put decl.name.text decl) types.structs,
          (opaqueInfo? entry).toList.foldl (fun table info => table.put info.name.text info) types.opaques⟩ := by
  obtain ⟨owner, item⟩ := entry
  cases item with
  | opaqueType loc name typeParams =>
    simp only [add, opaqueInfo?, structDecl?, bind_eq_ok_iff, checkTypeParams_eq_ok_iff, freshNames_nil_iff,
      pure_eq_ok_iff, Option.toList_some, Option.toList_none, foldl_cons, foldl_nil, Option.mem_some_iff, forall_eq']
    constructor
    · rintro ⟨_, ⟨hnodup, hprimitive⟩, rfl⟩
      exact ⟨⟨hnodup, hprimitive⟩, rfl⟩
    · rintro ⟨⟨hnodup, hprimitive⟩, rfl⟩
      exact ⟨(), ⟨hnodup, hprimitive⟩, rfl⟩
  | _ => simp [add, opaqueInfo?, structDecl?, @eq_comm _ _ after]

theorem foldlM_add_eq_ok_iff {entries : List (String × Item)} {after : DeclaredTypes} :
    entries.foldlM add types = .ok after ↔
      (∀ info ∈ entries.filterMap opaqueInfo?, DistinctTypeNames info.typeParams) ∧
        after = ⟨(entries.filterMap structDecl?).foldl (fun table decl => table.put decl.name.text decl) types.structs,
          (entries.filterMap opaqueInfo?).foldl (fun table info => table.put info.name.text info) types.opaques⟩ := by
  have hcons : ∀ {β : Type} (f : String × Item → Option β) (entry : String × Item) (entries : List (String × Item)),
      (entry :: entries).filterMap f = (f entry).toList ++ entries.filterMap f := by
    intro β f entry entries
    rw [filterMap_cons]
    cases f entry <;> rfl
  induction entries generalizing types with
  | nil => simp [eq_comm]
  | cons entry entries ih =>
    simp only [foldlM_cons, bind_eq_ok_iff, add_eq_ok_iff, ih, hcons, foldl_append, forall_mem_append,
      Option.mem_toList]
    constructor
    · rintro ⟨_, ⟨hfirst, rfl⟩, hlater, rfl⟩
      exact ⟨⟨hfirst, hlater⟩, rfl⟩
    · rintro ⟨⟨hfirst, hlater⟩, rfl⟩
      exact ⟨_, ⟨hfirst, rfl⟩, hlater, rfl⟩

end DeclaredTypes

namespace Graph

/-- The full names of all items hold no colons of their own. -/
def Plain (graph : Graph) : Prop :=
  ∀ {owner item}, graph.Declares owner item → (ItemName.mk owner item.name).IsPlain

theorem declares_iff_mem_items {owner : String} {item : Item} :
    graph.Declares owner item ↔ (owner, item) ∈ graph.items ∧ item.isUse = false := by
  simp only [Declares, items, mem_flatMap, mem_map, Prod.mk.injEq]
  constructor
  · rintro ⟨module_, hmodule, rfl, hitem, huse⟩
    exact ⟨⟨module_, hmodule, item, hitem, rfl, rfl⟩, huse⟩
  · rintro ⟨⟨module_, hmodule, _, hitem, rfl, rfl⟩, huse⟩
    exact ⟨module_, hmodule, rfl, hitem, huse⟩

theorem mem_structDecls_iff {decl : StructDecl} :
    decl ∈ graph.items.filterMap structDecl? ↔
      graph.Declares decl.name.moduleName (.struct decl.loc decl.name.name decl.fields) := by
  simp [declares_iff_mem_items, mem_filterMap, structDecl?_eq_some_iff, Item.isUse]

theorem mem_opaqueInfos_iff {info : OpaqueInfo} :
    info ∈ graph.items.filterMap opaqueInfo? ↔
      ∃ loc, graph.Declares info.name.moduleName (.opaqueType loc info.name.name info.typeParams) := by
  simp only [declares_iff_mem_items, mem_filterMap, opaqueInfo?_eq_some_iff, Item.isUse, and_true]
  constructor
  · rintro ⟨_, hentry, loc, rfl⟩
    exact ⟨loc, hentry⟩
  · rintro ⟨loc, hentry⟩
    exact ⟨_, hentry, loc, rfl⟩

/-- The tables of types exist exactly if type parameters have names of their own. -/
theorem declaredTypes_eq_ok_iff :
    graph.declaredTypes = .ok types ↔
      (∀ {owner loc name typeParams}, graph.Declares owner (.opaqueType loc name typeParams) →
        DistinctTypeNames typeParams) ∧
        types = ⟨.byName StructDecl.name (graph.items.filterMap structDecl?),
          .byName OpaqueInfo.name (graph.items.filterMap opaqueInfo?)⟩ := by
  rw [declaredTypes, DeclaredTypes.foldlM_add_eq_ok_iff]
  refine and_congr_left fun _ => ?_
  constructor
  · intro h owner loc name typeParams hdeclares
    exact h ⟨⟨owner, name⟩, typeParams⟩ (mem_opaqueInfos_iff.2 ⟨loc, hdeclares⟩)
  · intro h info hinfo
    obtain ⟨loc, hdeclares⟩ := mem_opaqueInfos_iff.1 hinfo
    exact h hdeclares

namespace WellFormed

variable {graph : Graph} (h : graph.WellFormed) (hplain : graph.Plain)
include h hplain

omit h in
theorem structDecls_plain : ∀ decl ∈ graph.items.filterMap structDecl?, decl.name.IsPlain :=
  fun _ hdecl => hplain (mem_structDecls_iff.1 hdecl)

omit hplain in
theorem structDecls_unique : ∀ decl ∈ graph.items.filterMap structDecl?,
    ∀ decl' ∈ graph.items.filterMap structDecl?, decl.name = decl'.name → decl = decl' := by
  rintro ⟨name, fields, loc⟩ hdecl ⟨name', fields', loc'⟩ hdecl' hname
  obtain rfl : name = name' := hname
  have hdeclares := mem_structDecls_iff.1 hdecl
  have hdeclares' := mem_structDecls_iff.1 hdecl'
  cases h.declares_unique hdeclares hdeclares' rfl
  rfl

/-- The tables hold the declared types, each under its full name. -/
theorem describes_of_declaredTypes (htypes : graph.declaredTypes = .ok types) : types.Describes graph := by
  obtain ⟨_, rfl⟩ := declaredTypes_eq_ok_iff.1 htypes
  constructor
  · intro name decl
    rw [Table.get_byName_iff (structDecls_plain hplain) h.structDecls_unique, mem_structDecls_iff]
    constructor
    · rintro ⟨rfl, hdeclares⟩
      exact ⟨rfl, hdeclares⟩
    · rintro ⟨rfl, hdeclares⟩
      exact ⟨rfl, hdeclares⟩
  · intro name info
    rw [Table.get_byName_iff, mem_opaqueInfos_iff]
    · constructor
      · rintro ⟨rfl, hdeclares⟩
        exact ⟨rfl, hdeclares⟩
      · rintro ⟨rfl, hdeclares⟩
        exact ⟨rfl, hdeclares⟩
    · intro info hinfo
      obtain ⟨loc, hdeclares⟩ := mem_opaqueInfos_iff.1 hinfo
      exact hplain hdeclares
    · rintro ⟨name, typeParams⟩ hinfo ⟨name', typeParams'⟩ hinfo' hname
      obtain rfl : name = name' := hname
      obtain ⟨loc, hdeclares⟩ := mem_opaqueInfos_iff.1 hinfo
      obtain ⟨loc', hdeclares'⟩ := mem_opaqueInfos_iff.1 hinfo'
      cases h.declares_unique hdeclares hdeclares' rfl
      rfl

end WellFormed

end Graph

end Smpl
