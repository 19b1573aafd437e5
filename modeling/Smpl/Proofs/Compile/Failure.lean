import Smpl.Proofs.Compile.Stages
import Smpl.Proofs.Failure.Reading
import Smpl.Proofs.Rust.Lowering
import Smpl.Proofs.Typing.Check

namespace Smpl

open List

theorem Module.readFrom_file {file source : String} {module_ : Module} (h : Module.ofSource file source = .ok module_) :
    module_.ReadFrom module_.file := by
  rw [Module.file_of_ofSource h]
  exact Module.readFrom_of_ofSource h

/-- A property of the characters of a text's lines, by the lines one at a time. -/
theorem exists_map_toList_cons {line : String} {chars : List Char} {lines : List String} {p : List (List Char) → Prop}
    (hline : line.toList = chars) (h : ∃ others, lines.map String.toList = others ∧ p (chars :: others)) :
    ∃ all, (line :: lines).map String.toList = all ∧ p all := by
  obtain ⟨others, hothers, hp⟩ := h
  exact ⟨chars :: others, by rw [map_cons, hline, hothers], hp⟩

theorem of_exists_map_toList {lines : List String} {p : List Char → Prop}
    (h : ∃ all, lines.map String.toList = all ∧ p (['\n'].intercalate all)) : p ("\n".intercalate lines).toList := by
  obtain ⟨all, rfl, hp⟩ := h
  rwa [String.toList_intercalate]

/-- The built-in prelude is a module, and its items have the parameters which their Rust text needs. -/
theorem exists_prelude : ∃ tree, Module.ofSource preludeSource.file preludeSource.text = .ok tree ∧
    ∀ item ∈ tree.items, Rust.Intrinsic item := by
  -- The characters of the text are found line by line, so that evaluation need not decode it.
  have hparses : ((tokenize preludeSource.file preludeSource.text.toList).toOption.any fun stream =>
      (Module.ofTokens preludeSource.file stream).toOption.any fun tree =>
        decide (∀ item ∈ tree.items, Rust.Intrinsic item)) = true := by
    refine of_exists_map_toList (p := fun chars => ((tokenize preludeSource.file chars).toOption.any _) = true) ?_
    iterate 13 refine exists_map_toList_cons String.toList_ofList ?_
    exact ⟨[], map_nil, by decide +kernel⟩
  obtain ⟨stream, hstream, hparses⟩ := exists_eq_ok_of_any hparses
  obtain ⟨tree, htree, hitems⟩ := exists_eq_ok_of_any hparses
  refine ⟨tree, ?_, of_decide_eq_true hitems⟩
  rw [Module.ofSource, hstream, ok_bind, Module.parse, htree]
  rfl

namespace Graph

variable {trees : List Module} {prelude : Option Module} {graph : Graph}

/-- A program of modules that were read: all that checking and lowering it take for granted. -/
theorem read_of_build (hread : ∀ tree ∈ prelude.toList ++ trees, tree.ReadFrom tree.file)
    (h : build trees prelude = .ok graph) : graph.Read := by
  intro module_ hmodule
  rcases (build_spec h).2 module_ hmodule with hprelude | hinput
  · exact hread module_.tree (mem_append_left _ (Option.mem_toList.2 hprelude))
  · exact hread module_.tree (mem_append_right _ hinput)

/-- The items of the prelude keep in the program what their Rust text needs. -/
theorem intrinsic_of_build (hprelude : ∀ tree ∈ prelude, ∀ item ∈ tree.items, Rust.Intrinsic item)
    (h : build trees prelude = .ok graph) {owner : String} {item : Item} (howner : graph.prelude = some owner)
    (hdeclares : graph.Declares owner item) : Rust.Intrinsic item := by
  obtain ⟨hassembles, rfl⟩ := build_eq_ok_iff.1 h
  cases prelude with
  | none => cases howner
  | some tree =>
    obtain ⟨module_, hmodule, hname, hitem, _⟩ := hdeclares
    have hwell := (build_spec h).1
    cases howner
    have hfirst : GraphModule.ofTree true tree ∈ (ofTrees trees (some tree)).modules := mem_cons_self
    obtain rfl : module_ = GraphModule.ofTree true tree := by
      have hfind := hwell.viewer hmodule
      rw [hname] at hfind
      exact Option.some.inj (hfind.symm.trans (hwell.viewer hfirst))
    exact hprelude tree rfl item hitem

/-- What checking a program leaves is what the Rust backend takes for granted. -/
theorem lowers_of_build (hspellable : ∀ tree ∈ prelude, tree.Spellable)
    (hprelude : ∀ tree ∈ prelude, ∀ item ∈ tree.items, Rust.Intrinsic item) (h : build trees prelude = .ok graph)
    {program : Program} (hprogram : graph.check.outcome = .ok program) :
    ∃ signatures, Rust.Lowers program.registry signatures := by
  obtain ⟨types, structs, signatures, htypes, hstructs, hsignatures, _, hregistry, _⟩ := check_eq_ok_iff.1 hprogram
  rw [hregistry]
  refine ⟨signatures, ⟨htypes, hstructs, hsignatures, rfl⟩, fun owner howner => ?_, intrinsic_of_build hprelude h⟩
  obtain ⟨_, rfl⟩ := build_eq_ok_iff.1 h
  obtain ⟨tree, htree, rfl⟩ := Option.map_eq_some_iff.1 howner
  exact colon_notMem_of_isName (hspellable tree htree).isName_knownName

end Graph

/-- Modules that can be spelled always have canonical texts. -/
theorem Canonical.failsOnly_texts {P : Failure → Prop} {trees : List Module} (htrees : ∀ tree ∈ trees, tree.Spellable) :
    FailsOnly P (Canonical.texts trees) := by
  refine .last (.mapM fun tree htree => ?_)
  obtain ⟨text, hprint, _⟩ := (htrees tree htree).reads
  exact .of_eq_ok hprint

/-- A backend that is always known fails only with diagnostics on modules that were read. -/
theorem Backend.failsOnly_write {backend : Backend} (hbackend : backend ∈ Backends.standard) {emitEntry : Bool}
    {trees : List Module} {prelude : Option Module} (hread : ∀ tree ∈ prelude.toList ++ trees, tree.ReadFrom tree.file)
    (hspellable : ∀ tree ∈ prelude.toList ++ trees, tree.Spellable)
    (hprelude : ∀ tree ∈ prelude, ∀ item ∈ tree.items, Rust.Intrinsic item) :
    FailsOnly Failure.IsDiagnostic (backend.write emitEntry trees prelude) := by
  refine .bind (Graph.failsOnly_build hread) fun graph hgraph => ?_
  have hwell := (Graph.build_spec hgraph).1
  have hplain : graph.Plain := Graph.plain_of_build (fun tree htree => hspellable tree (mem_append_right _ htree))
    (fun tree htree => hspellable tree (mem_append_left _ (Option.mem_toList.2 htree))) hgraph
  have hgraphRead := Graph.read_of_build hread hgraph
  refine .bind (hwell.failsOnly_check hplain hgraphRead) fun program hprogram => .last ?_
  obtain ⟨signatures, hlowers⟩ := Graph.lowers_of_build
    (fun tree htree => hspellable tree (mem_append_left _ (Option.mem_toList.2 htree))) hprelude hgraph hprogram
  simp only [Backends.standard, mem_cons, not_mem_nil, or_false] at hbackend
  rcases hbackend with rfl | rfl
  · rw [Rust.outcome_generate]
    obtain ⟨_, _, _, _, _, _, _, _, hmodules⟩ := Graph.check_eq_ok_iff.1 hprogram
    exact .last ((hlowers.failsOnly_crateLines rfl hmodules emitEntry).mono fun _ h => h.isDiagnostic)
  · rw [Canonical.outcome_generate]
    refine Canonical.failsOnly_texts fun tree htree => ?_
    obtain ⟨module_, hmodule, rfl⟩ := mem_map.1 htree
    have hsame : program.graph = graph := by
      obtain ⟨_, _, _, _, _, _, _, hregistry, _⟩ := Graph.check_eq_ok_iff.1 hprogram
      rw [Program.graph, hregistry]
    rw [hsame] at hmodule
    rcases (Graph.build_spec hgraph).2 module_ (mem_of_mem_filter hmodule) with hgiven | hgiven
    · exact hspellable module_.tree (mem_append_left _ (Option.mem_toList.2 hgiven))
    · exact hspellable module_.tree (mem_append_right _ hgiven)

theorem Backends.mem_of_get {backends : Backends} {id : Scalar} {backend : Backend}
    (h : backends.get id = .ok backend) :
    backend ∈ backends := by
  rw [Backends.get] at h
  split at h
  · next hfind =>
    cases h
    exact mem_of_find?_eq_some hfind
  · obtain ⟨_, _, h⟩ := bind_eq_ok_iff.1 h
    cases h

/-- An unknown backend is reported as such. -/
theorem Backends.failsOnly_get (id : Scalar) : FailsOnly Failure.IsDiagnostic (Backends.standard.get id) := by
  rw [Backends.get]
  split
  · exact .ok _
  · have hcause : ∃ cause, Cause.ofBackend id (Backends.standard.map (·.id)) = .ok cause := ⟨_, rfl⟩
    obtain ⟨cause, hcause⟩ := hcause
    exact .bind (.of_eq_ok hcause) fun _ _ => .error ⟨_, rfl⟩

/-- Compiling texts whose digit runs fit ends with a result or with a diagnostic, whatever the backend,
    with the built-in prelude or without one. The depth of the stack is not modelled: an interpreter that bounds it may
    also give up on deeply nested texts. -/
theorem Options.compile_eq_ok_or_diagnostic (options : Options) (sources : List Source)
    (h : ∀ source ∈ sources, DigitRunsFit source.text.toList) :
    (∃ compiled, (options.compile Backends.standard sources).outcome = .ok compiled) ∨
      ∃ d, (options.compile Backends.standard sources).outcome = .error (.diagnostic d) := by
  have hfails : FailsOnly Failure.IsDiagnostic (options.compile Backends.standard sources).outcome := by
    rw [Options.outcome_compile]
    refine .bind (Backends.failsOnly_get options.backend) fun backend hbackend => ?_
    refine .bind (.mapM fun source hsource => Module.failsOnly_ofSource (h source hsource)) fun trees htrees => ?_
    obtain ⟨builtin, hbuiltin, hintrinsic⟩ := exists_prelude
    have hprelude : ∃ prelude, preludeModule options.withPrelude = .ok prelude ∧ ∀ tree ∈ prelude, tree = builtin := by
      cases options.withPrelude with
      | false => exact ⟨none, rfl, by simp⟩
      | true => exact ⟨some builtin, by rw [preludeModule, hbuiltin]; rfl, by simp⟩
    obtain ⟨prelude, hprelude, hgiven⟩ := hprelude
    refine .bind (.of_eq_ok hprelude) fun found hfound => .last ?_
    obtain rfl : prelude = found := Except.ok.inj (hprelude.symm.trans hfound)
    have hparsed : ∀ tree ∈ prelude.toList ++ trees, ∃ file text, Module.ofSource file text = .ok tree := by
      refine forall_mem_append.2 ⟨fun tree htree => ?_, fun tree htree => ?_⟩
      · exact ⟨_, _, hgiven tree (Option.mem_toList.1 htree) ▸ hbuiltin⟩
      · obtain ⟨source, _, hsource⟩ := (mem_of_mapM_eq_ok htrees).1 htree
        exact ⟨_, _, hsource⟩
    refine Backend.failsOnly_write (Backends.mem_of_get hbackend) (fun tree htree => ?_) (fun tree htree => ?_)
      fun tree htree => hgiven tree htree ▸ hintrinsic
    · obtain ⟨file, text, hsource⟩ := hparsed tree htree
      exact Module.readFrom_file hsource
    · obtain ⟨file, text, hsource⟩ := hparsed tree htree
      exact (Module.settled_of_ofSource hsource).1
  cases hout : (options.compile Backends.standard sources).outcome with
  | ok compiled => exact .inl ⟨compiled, rfl⟩
  | error failure =>
    obtain ⟨d, rfl⟩ := hfails failure hout
    exact .inr ⟨d, rfl⟩

/-- A call of a function that is nowhere declared. -/
theorem Options.compile_eq_ok_or_diagnostic_undefined :
    (∀ source ∈ [Source.mk "a.smpl" "fn main() { let x: int = 10 + f(2); }"], DigitRunsFit source.text.toList) ∧
      ((∃ compiled, (Options.compile {} Backends.standard
          [Source.mk "a.smpl" "fn main() { let x: int = 10 + f(2); }"]).outcome = .ok compiled) ∨
        ∃ d, (Options.compile {} Backends.standard
          [Source.mk "a.smpl" "fn main() { let x: int = 10 + f(2); }"]).outcome = .error (.diagnostic d)) := by
  have hfits : ∀ source ∈ [Source.mk "a.smpl" "fn main() { let x: int = 10 + f(2); }"],
      DigitRunsFit source.text.toList := by
    rw [forall_mem_singleton]
    exact digitRunsFit_of_length_le (by decide)
  exact ⟨hfits, Options.compile_eq_ok_or_diagnostic {} _ hfits⟩

end Smpl
