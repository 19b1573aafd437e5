import Smpl.Proofs.Checker.Erase
import Smpl.Proofs.Typing.Registry

namespace Smpl

open List

/-- A registered struct has the fields of its declaration, which differ. -/
theorem Graph.exists_decl_of_structs {graph : Graph} {types : DeclaredTypes} {structs : Table StructInfo} {key : String}
    {info : StructInfo} (hstructs : graph.structs types = .ok structs) (hfind : structs.find? key = some info) :
    ∃ decl, types.structs.find? key = some decl ∧ info.name = decl.name ∧
      info.fieldNames = decl.fields.map (·.name) ∧ info.fieldNames.Nodup := by
  obtain ⟨decl, hdecl, hinfo⟩ := (Table.find?_of_mapM hstructs).1 hfind
  obtain ⟨hnames, fields, hfields, rfl⟩ := structInfo_eq_ok_iff.1 hinfo
  have hfieldNames : fields.map (·.name) = decl.fields.map (·.name) := by
    rw [← TypeScope.erase_of_mapM_member hfields, map_map]
    rfl
  have hinfoNames : StructInfo.fieldNames ⟨decl.name, fields.map fun field => (field.name, field.type.type), decl.loc⟩ =
      decl.fields.map (·.name) := by
    rw [← hfieldNames, StructInfo.fieldNames, map_map]
    rfl
  exact ⟨decl, hdecl, rfl, hinfoNames, hinfoNames ▸ hnames⟩

/-- Entries that give fields of a struct, none of them twice. -/
def StructInfo.Accepts (info : StructInfo) (names : List String) : Prop :=
  names.Nodup ∧ ∀ name ∈ names, name ∈ info.fieldNames

/-- The names are the fields in some order if they fit and none is missing. -/
theorem StructInfo.perm_fieldNames_iff {info : StructInfo} {names : List String} (hnodup : info.fieldNames.Nodup) :
    names.Perm info.fieldNames ↔ info.Accepts names ∧ ∀ name ∈ info.fieldNames, name ∈ names := by
  constructor
  · intro hperm
    exact ⟨⟨hperm.nodup_iff.2 hnodup, fun name => hperm.mem_iff.1⟩, fun name => hperm.mem_iff.2⟩
  · rintro ⟨⟨hnames, hdeclared⟩, hall⟩
    exact (perm_ext_iff_of_nodup hnames hnodup).2 fun name => ⟨hdeclared name, hall name⟩

namespace Context

variable {ctx : Context} {scope : Scope} {info : StructInfo} {loc : Location} {path : Path}
  {fields before others : List (FieldInit Expr)} {field : FieldInit Expr} {given : List String} {failure : Failure}

/-- Each value that is given for a field of the struct has the type of the field. -/
def ChecksValues (ctx : Context) (scope : Scope) (info : StructInfo) (fields : List (FieldInit Expr)) : Prop :=
  ∀ field ∈ fields, ∀ type, info.fieldType? field.name = some type →
    ∃ value, ctx.expr scope field.value = .ok value ∧ value.type = type

theorem exists_fieldType?_iff {name : String} :
    (∃ type, info.fieldType? name = some type) ↔ name ∈ info.fieldNames := by
  simp only [← Option.isSome_iff_exists, StructInfo.fieldType?, lookup_isSome_iff, StructInfo.fieldNames,
    mem_map, beq_iff_eq, @eq_comm _ name]

/-- Entries that are accepted are passed, and what is wrong with the next one is reported. -/
theorem inits_append_eq_error (hvalues : ctx.ChecksValues scope info before)
    (hfresh : FreshNames given (before.map (·.name))) (hdeclared : ∀ field ∈ before, field.name ∈ info.fieldNames)
    (hothers : ctx.inits scope info ((before.map (·.name)).reverse ++ given) others = .error failure) :
    ctx.inits scope info given (before ++ others) = .error failure := by
  induction before generalizing given with
  | nil => exact hothers
  | cons field before ih =>
    obtain ⟨loc, name, value⟩ := field
    rw [map_cons, freshNames_cons_iff] at hfresh
    rw [map_cons, reverse_cons, append_assoc] at hothers
    obtain ⟨⟨type, htype⟩, hdeclared⟩ := (forall_mem_cons.1 hdeclared).imp_left exists_fieldType?_iff.2
    obtain ⟨hvalue, hvalues⟩ := forall_mem_cons.1 hvalues
    obtain ⟨checked, hchecked, rfl⟩ := hvalue type htype
    rw [cons_append, Context.inits, if_neg (by simpa using hfresh.1), htype]
    simp only [hchecked, ok_bind, expectType, if_true, ih hvalues hfresh.2 hdeclared hothers]
    rfl

theorem expr_init_eq_error (hstruct : ctx.struct path loc = .ok info) (hvalues : ctx.ChecksValues scope info before)
    (haccepts : info.Accepts (before.map (·.name)))
    (hothers : ctx.inits scope info (before.map (·.name)).reverse others = .error failure) :
    ctx.expr scope (.init loc path (before ++ others)) = .error failure := by
  have hinits : ctx.inits scope info [] (before ++ others) = .error failure :=
    inits_append_eq_error hvalues (freshNames_nil_iff.2 haccepts.1) (forall_mem_map.1 haccepts.2)
      (by rwa [append_nil])
  rw [Context.expr, hstruct, ok_bind, hinits]
  rfl

theorem exists_inits (hvalues : ctx.ChecksValues scope info fields) (h : info.Accepts (fields.map (·.name))) :
    ∃ outs, ctx.inits scope info [] fields = .ok outs := by
  obtain ⟨outs, houts⟩ : ∃ outs, Forall₂ (ctx.ChecksInit scope info) fields outs := by
    refine exists_forall₂ fun field hfield => ?_
    obtain ⟨type, htype⟩ := exists_fieldType?_iff.2 (h.2 field.name (mem_map_of_mem hfield))
    obtain ⟨value, hvalue, rfl⟩ := hvalues field hfield type htype
    exact ⟨⟨field.loc, field.name, value⟩, rfl, rfl, hvalue, htype⟩
  exact ⟨outs, inits_eq_ok_iff.2 ⟨freshNames_nil_iff.2 h.1, houts⟩⟩

/-- An initializer is checked against the fields of its struct. If each value that it gives for one of them has the
    right type, it is accepted just if it gives each of them once, in any order. Otherwise the first entry that repeats
    an earlier one or gives a field that the struct does not have is reported, and if there is none, the fields that are
    not given, in the order of their declaration. -/
theorem init_gives_each_field_once (hstructs : ctx.graph.structs ctx.registry.types = .ok ctx.registry.structs)
    (hstruct : ctx.struct path loc = .ok info) (hvalues : ctx.ChecksValues scope info fields) :
    (∃ decl ∈ ctx.registry.types.structs.values, info.name = decl.name ∧
      info.fieldNames = decl.fields.map (·.name)) ∧
    ((∃ checked, ctx.expr scope (.init loc path fields) = .ok checked) ↔
      (fields.map (·.name)).Perm info.fieldNames) ∧
    (∀ before field others, fields = before ++ field :: others → info.Accepts (before.map (·.name)) →
      (field.name ∈ before.map (·.name) → ctx.expr scope (.init loc path fields) =
        refuse (.duplicateField info.name.name field.name) field.loc) ∧
      (field.name ∉ info.fieldNames → ctx.expr scope (.init loc path fields) =
        refuse (.unknownField info.name.name field.name info.fieldNames) field.loc)) ∧
    (info.Accepts (fields.map (·.name)) → ¬(fields.map (·.name)).Perm info.fieldNames →
      ctx.expr scope (.init loc path fields) =
        refuse (.missingField info.name.name (info.fieldNames.filter (· ∉ fields.map (·.name)))) loc) := by
  obtain ⟨_, owner, loc', name, _, _, hget⟩ := struct_eq_ok_iff.1 hstruct
  obtain ⟨decl, hdecl, hname, hdeclared, hnodup⟩ :=
    Graph.exists_decl_of_structs hstructs (Table.get_eq_ok_iff.1 hget)
  refine ⟨⟨decl, mem_map.2 ⟨_, Table.mem_of_find? hdecl, rfl⟩, hname, hdeclared⟩, ?_, ?_, ?_⟩
  · rw [StructInfo.perm_fieldNames_iff hnodup]
    constructor
    · rintro ⟨checked, hchecked⟩
      obtain ⟨info', outs, hstruct', hnames, houts, hall, _⟩ := expr_init_eq_ok_iff.1 hchecked
      obtain rfl : info = info' := Except.ok.inj (hstruct.symm.trans hstruct')
      refine ⟨⟨hnames, forall_mem_map.2 fun field hfield => ?_⟩, hall⟩
      obtain ⟨out, _, hout⟩ := exists_of_forall₂_of_mem houts hfield
      exact exists_fieldType?_iff.1 ⟨_, hout.type⟩
    · rintro ⟨haccepts, hall⟩
      obtain ⟨outs, houts⟩ := exists_inits hvalues haccepts
      obtain ⟨hfresh, hchecks⟩ := inits_eq_ok_iff.1 houts
      exact ⟨_, expr_init_eq_ok_iff.2 ⟨info, outs, hstruct, freshNames_nil_iff.1 hfresh, hchecks, hall, rfl⟩⟩
  · rintro before ⟨place, name, value⟩ others rfl haccepts
    have hpassed : ctx.ChecksValues scope info before := fun entry hentry =>
      hvalues entry (mem_append_left _ hentry)
    refine ⟨fun hrepeated => expr_init_eq_error hstruct hpassed haccepts ?_,
      fun hunknown => expr_init_eq_error hstruct hpassed haccepts ?_⟩
    · rw [Context.inits, if_pos (by simpa using hrepeated)]
      rfl
    · have hnew : name ∉ before.map (·.name) := fun hmem => hunknown (haccepts.2 name hmem)
      have htype : info.fieldType? name = none :=
        Option.eq_none_iff_forall_ne_some.2 fun type htype => hunknown (exists_fieldType?_iff.1 ⟨type, htype⟩)
      rw [Context.inits, if_neg (by simpa using hnew), htype]
      rfl
  · intro haccepts hnot
    obtain ⟨outs, houts⟩ := exists_inits hvalues haccepts
    have hmissing : (info.fieldNames.filter (· ∉ fields.map (·.name))) ≠ [] := fun hnone =>
      hnot ((StructInfo.perm_fieldNames_iff hnodup).2 ⟨haccepts, by simpa [filter_eq_nil_iff] using hnone⟩)
    simp only [decide_not, ← contains_eq_mem] at hmissing ⊢
    rw [Context.expr, hstruct, ok_bind, houts, ok_bind, if_pos (by simpa using hmissing)]
    rfl

/-- An entry for `y`, one for `x`, and one more for `y`. -/
theorem init_gives_each_field_once_repeated :
    let loc : Location := ⟨"m", 1, 1⟩
    let members : List (Member TypeExpr) := ["x", "y"].map fun name => ⟨loc, name, .named loc (.bare "int") []⟩
    let graph := Graph.ofTrees [⟨loc, some "m", [.struct loc "P" members], "m"⟩] none
    let info : StructInfo := ⟨⟨"m", "P"⟩, [("x", .int), ("y", .int)], loc⟩
    let ctx : Context := ⟨⟨graph, ⟨⟨[("m::P", ⟨info.name, members, loc⟩)]⟩, .empty⟩, ⟨[("m::P", info)]⟩, .empty⟩,
      "m", [], "f", .unit⟩
    let entry (name : String) : FieldInit Expr := ⟨loc, name, .literal loc (.integer 1)⟩
    ctx.struct (.bare "P") loc = .ok info ∧
      ctx.expr .empty (.init loc (.bare "P") [entry "y", entry "x", entry "y"]) =
        refuse (.duplicateField "P" "y") loc := by
  intro loc members graph info ctx entry
  have hstruct : ctx.struct (.bare "P") loc = .ok info := by rfl
  have hvalues : ctx.ChecksValues .empty info [entry "y", entry "x", entry "y"] := by
    intro field hfield type htype
    simp only [mem_cons, not_mem_nil, or_false] at hfield
    rcases hfield with rfl | rfl | rfl
    all_goals exact ⟨.literal loc (.integer 1), rfl, Option.some.inj htype⟩
  have hentries := (init_gives_each_field_once rfl hstruct hvalues).2.2.1 [entry "y", entry "x"] (entry "y") [] rfl
  exact ⟨hstruct, (hentries ⟨by decide, by decide⟩).1 (by decide)⟩

end Context

end Smpl
