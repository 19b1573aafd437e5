import Smpl.Proofs.Spelling.Rust

namespace Smpl

namespace Rust

/-- The backend gives a text only where every name in the program can be used. -/
theorem checkModuleNames_of_crateLines {program : Program} {emitEntry : Bool} {lines : List String}
    (h : crateLines program emitEntry = .ok lines) :
    ∀ module_ ∈ program.userModules, checkModuleNames module_ = .ok () := by
  rw [crateLines, bind_eq_ok_iff] at h
  obtain ⟨_, hnames, _⟩ := h
  exact Graph.forM_eq_ok_iff.1 hnames

/-- The Rust text of a program is that of the program with its paths spelled, except that a used prelude
    has to have a name Rust text can have. -/
theorem crateLines_spelled_eq_ok_iff {trees : List Module} {prelude : Option Module} {program program' : Program}
    {full : String → Bool} (h : Program.ofModules trees prelude = .ok program)
    (hmodules : program'.modules = (program.spelled full).modules) (hentry : program'.entry = program.entry)
    (hstructs : program'.registry.structs = program.registry.structs)
    (hprelude : program'.graph.prelude = program.graph.prelude) (emitEntry : Bool) (lines : List String) :
    crateLines program emitEntry = .ok lines ↔
      crateLines program' emitEntry = .ok lines ∧ program.UsesNamed full := by
  obtain ⟨hassembles, hgraph, first, others, hreads⟩ := Program.reads_of_ofModules h
  have huser : program'.userModules = (program.spelled full).userModules := by
    rw [Program.userModules, hmodules, Program.userModules]
  have hiff := checkModuleNames_spelled hreads hassembles hgraph full
  rw [← huser] at hiff
  constructor
  · intro hlines
    have hnames := checkModuleNames_of_crateLines hlines
    obtain ⟨hnames', hused⟩ := hiff.1 hnames
    exact ⟨(crateLines_spelled hmodules hentry hstructs hprelude hnames hnames' emitEntry).trans hlines, hused⟩
  · rintro ⟨hlines, hused⟩
    have hnames' := checkModuleNames_of_crateLines hlines
    have hnames := hiff.2 ⟨hnames', hused⟩
    exact (crateLines_spelled hmodules hentry hstructs hprelude hnames hnames' emitEntry).symm.trans hlines

end Rust

/-- The first standard backend is the one for Rust. -/
theorem Backends.outcome_generate (program : Program) (emitEntry : Bool) :
    (Backends.standard.generate (.number 0) program emitEntry).outcome = (Rust.generate program emitEntry).outcome := by
  have hget : Backends.standard.get (.number 0) = .ok ⟨.number 0, Rust.backendName, ".rs", Rust.generate⟩ := rfl
  simp only [Backends.generate, Traced.outcome_bind, Traced.outcome_liftM, hget, ok_bind, Traced.outcome_note,
    Traced.outcome_pure]
  cases (Rust.generate program emitEntry).outcome <;> rfl

/-- What the first standard backend writes is the lines of the crate. -/
theorem Backends.outcome_generate_eq_ok_iff {program : Program} {emitEntry : Bool} {text : String} :
    (Backends.standard.generate (.number 0) program emitEntry).outcome = .ok text ↔
      ∃ lines, Rust.crateLines program emitEntry = .ok lines ∧ "\n".intercalate lines ++ "\n" = text := by
  rw [Backends.outcome_generate, Rust.outcome_generate, bind_eq_ok_iff]
  simp only [pure_eq_ok_iff]

namespace Program

/-- A checked program stays checked when the paths that the module graph resolved are spelled in full and
    the uses deleted, in whichever of its modules. Its nodes keep their decorations and its tables their
    entries, and the Rust text is the same, or there is none for either. One name is the exception: the
    Rust backend looks at the name of a used prelude only where it is used. -/
theorem spelled_of_ofModules {trees : List Module} {prelude : Option Module} {program : Program}
    (h : Program.ofModules trees prelude = .ok program) (full : String → Bool) :
    program.trees = trees ∧ program.preludeTree = prelude ∧
      ∃ program', Program.ofModules (program.spelled full).trees (program.spelled full).preludeTree = .ok program' ∧
        program'.modules = (program.spelled full).modules ∧
        program'.modules.map TypedModule.decorations = program.modules.map TypedModule.decorations ∧
        program'.entry = program.entry ∧ program'.registry.structs = program.registry.structs ∧
        program'.registry.functions = program.registry.functions ∧
        program'.registry.types.opaques = program.registry.types.opaques ∧
        ∀ emitEntry text, (Backends.standard.generate (.number 0) program emitEntry).outcome = .ok text ↔
          (Backends.standard.generate (.number 0) program' emitEntry).outcome = .ok text ∧ program.UsesNamed full := by
  obtain ⟨htrees, hpreludeTree, program', hprogram', hmodules, hentry, hstructs, hfunctions, hopaques, hprelude⟩ :=
    exists_ofModules_spelled h full
  have hdecorations : program'.modules.map TypedModule.decorations = program.modules.map TypedModule.decorations := by
    rw [hmodules, Program.spelled, List.map_map]
    exact List.map_congr_left fun module_ _ => TypedModule.decorations_spelled (full module_.name) module_
  refine ⟨htrees, hpreludeTree, program', hprogram', hmodules, hdecorations, hentry, hstructs, hfunctions, hopaques, ?_⟩
  intro emitEntry text
  simp only [Backends.outcome_generate_eq_ok_iff,
    Rust.crateLines_spelled_eq_ok_iff h hmodules hentry hstructs hprelude emitEntry]
  constructor
  · rintro ⟨lines, ⟨hlines, hused⟩, htext⟩
    exact ⟨⟨lines, hlines, htext⟩, hused⟩
  · rintro ⟨⟨lines, hlines, htext⟩, hused⟩
    exact ⟨lines, ⟨hlines, hused⟩, htext⟩

/-- Imported and prelude items written with their modules. -/
theorem spelled_of_ofModules_used :
    ∃ util app prelude program program' text,
      Module.ofSource "util" "mod util; struct P {} fn make() -> P {return P {};}" = .ok util ∧
      Module.ofSource "app"
        "mod app; use util; fn main() {let f: fn() -> P = make; let o: Option(type P) = some(type P)(f());}" = .ok app ∧
      Module.ofSource "prelude" "mod prelude; opaque Option(type T); builtin fn some(type T)(v: T) -> Option(type T);" =
        .ok prelude ∧
      ofModules [util, app] (some prelude) = .ok program ∧
      (program.spelled fun _ => true).trees.mapM Module.print = .ok [
        "mod util;\n\nstruct P {}\n\nfn make() -> util::P \x7b\n    return init util::P {};\n\x7d\n",
        "mod app;\n\nfn main() \x7b\n    let f: fn() -> util::P = util::make;\n" ++
        "    let o: prelude::Option(type util::P) = prelude::some(type util::P)(f());\n\x7d\n"] ∧
      ofModules (program.spelled fun _ => true).trees (program.spelled fun _ => true).preludeTree = .ok program' ∧
      program'.modules.map TypedModule.decorations = program.modules.map TypedModule.decorations ∧
      (Backends.standard.generate (.number 0) program true).outcome = .ok text ∧
      (Backends.standard.generate (.number 0) program' true).outcome = .ok text := by
  simp only [exists_and_left]
  refine exists_ok₄ (p := fun _ _ _ program =>
    (Backends.standard.generate (.number 0) program true).outcome.toOption.any
    fun _ => ((program.spelled fun _ => true).trees.mapM Module.print).toOption.any (· = [
      "mod util;\n\nstruct P {}\n\nfn make() -> util::P \x7b\n    return init util::P {};\n\x7d\n",
      "mod app;\n\nfn main() \x7b\n    let f: fn() -> util::P = util::make;\n" ++
      "    let o: prelude::Option(type util::P) = prelude::some(type util::P)(f());\n\x7d\n"]))
    (by decide +kernel) fun util app prelude program _ _ _ hprogram hall => ?_
  obtain ⟨text, htext, hall⟩ := exists_eq_ok_of_any hall
  obtain ⟨texts, hprint, htexts⟩ := exists_eq_ok_of_any hall
  obtain ⟨_, _, program', hprogram', _, hdecorations, _, _, _, _, hrust⟩ :=
    spelled_of_ofModules hprogram fun _ => true
  exact ⟨hprint.trans (congrArg _ (of_decide_eq_true htexts)), program', hprogram', hdecorations, text, htext,
    ((hrust true text).1 htext).1⟩

/-- The Rust backend refuses a program for the name of the prelude it uses, and writes it without the use. -/
theorem spelled_of_ofModules_reserved :
    ∃ prelude app program program' failure text,
      Module.ofSource "prelude" "mod Some;" = .ok prelude ∧
      Module.ofSource "app" "mod app; use Some; fn main() {}" = .ok app ∧
      ofModules [app] (some prelude) = .ok program ∧
      ofModules (program.spelled fun _ => true).trees (program.spelled fun _ => true).preludeTree = .ok program' ∧
      (Backends.standard.generate (.number 0) program true).outcome = .error failure ∧
      (Backends.standard.generate (.number 0) program' true).outcome = .ok text := by
  simp only [exists_and_left]
  refine exists_ok₄ (p := fun _ _ program program' =>
    (Backends.standard.generate (.number 0) program' true).outcome.toOption.any fun _ =>
      (Backends.standard.generate (.number 0) program true).outcome.toOption.isNone) (by decide +kernel)
    fun prelude app program program' _ _ _ _ hall => ?_
  obtain ⟨text, htext, hnone⟩ := exists_eq_ok_of_any hall
  cases hrefused : (Backends.standard.generate (.number 0) program true).outcome with
  | ok text' =>
    rw [hrefused] at hnone
    cases hnone
  | error failure =>
    exact ⟨failure, rfl, text, htext⟩

end Program

end Smpl
