import Smpl.Proofs.Rust.Lowering

namespace Smpl

variable {module_ : TypedModule} {registry : Registry}

theorem Registry.Records.complete {signatures : List Signature}
    (h : registry.Records signatures) :
    Rust.Complete registry.structs :=
  Graph.complete_of_structs h.declared.types h.structs

namespace Rust

/-- The text of an item depends on no structs but those of its module. -/
theorem itemLines_congr {structs structs' : Table StructInfo} {setting : Setting}
    (h : ∀ name, structs'.get ⟨setting.moduleName, name⟩ = structs.get ⟨setting.moduleName, name⟩) (item : TypedItem) :
    itemLines structs' setting item = itemLines structs setting item := by
  cases item <;> simp only [itemLines, structLines, h]

/-- The text of a module depends on no structs but its own. -/
theorem moduleLines_congr {registry' : Registry}
    (hprelude : registry'.graph.prelude = registry.graph.prelude)
    (hstructs : ∀ name, registry'.structs.get ⟨module_.name, name⟩ = registry.structs.get ⟨module_.name, name⟩) :
    moduleLines registry' module_ = moduleLines registry module_ := by
  have hitems : itemLines registry'.structs ⟨registry.graph.prelude, module_.name, []⟩ =
      itemLines registry.structs ⟨registry.graph.prelude, module_.name, []⟩ := funext (itemLines_congr hstructs)
  rw [moduleLines, moduleLines, hprelude, hitems]

/-- A module has text exactly if its items have. -/
theorem exists_moduleLines_iff :
    (∃ lines, moduleLines registry module_ = .ok lines) ↔
      ∀ item ∈ module_.items,
        ∃ lines, itemLines registry.structs ⟨registry.graph.prelude, module_.name, []⟩ item = .ok lines := by
  rw [← exists_mapM_iff]
  simp only [moduleLines, bind_eq_ok_iff, pure_eq_ok_iff]
  constructor
  · rintro ⟨_, lines, hlines, _⟩
    exact ⟨lines, hlines⟩
  · rintro ⟨lines, hlines⟩
    exact ⟨_, lines, hlines, rfl⟩

theorem checkModuleNames_eq_ok_iff :
    checkModuleNames module_ = .ok () ↔
      checkName "module" module_.name module_.loc = .ok () ∧ ∀ item ∈ module_.items, checkItemNames item = .ok () := by
  simp only [checkModuleNames, bind_eq_ok_iff, Graph.forM_eq_ok_iff]
  constructor
  · rintro ⟨_, hname, hitems⟩
    exact ⟨hname, hitems⟩
  · rintro ⟨hname, hitems⟩
    exact ⟨(), hname, hitems⟩

/-- A program has Rust text exactly if its names, its structs and all its items have. -/
theorem exists_crateLines_iff {program : Program} {emitEntry : Bool} :
    (∃ lines, crateLines program emitEntry = .ok lines) ↔
      (∀ module_ ∈ program.userModules, checkModuleNames module_ = .ok ()) ∧
        (∃ u, checkContainment program.registry.structs = .ok u) ∧
        ∀ module_ ∈ program.userModules, ∃ lines, moduleLines program.registry module_ = .ok lines := by
  simp only [crateLines, bind_eq_ok_iff, pure_eq_ok_iff, Graph.forM_eq_ok_iff]
  rw [← exists_mapM_iff]
  constructor
  · rintro ⟨_, _, hnames, u, hcontainment, lines, hlines, _⟩
    exact ⟨hnames, ⟨u, hcontainment⟩, lines, hlines⟩
  · rintro ⟨hnames, ⟨u, hcontainment⟩, lines, hlines⟩
    exact ⟨_, (), hnames, u, hcontainment, lines, hlines, rfl⟩

end Rust

end Smpl
