import Smpl.Proofs.Compile.Stages
import Smpl.Proofs.Graph.Assembly
import Smpl.Proofs.Print.RoundTrip
import Smpl.Proofs.Relocate.Print
import Smpl.Proofs.Relocate.Rust
import Smpl.Proofs.Relocate.Shape

namespace Smpl

open List

/-- The class of a broad kind of diagnostic. -/
def Category.className : Category → String
  | .compile => "CompileError"
  | .grammar => "SmplSyntaxError"
  | .lexical => "LexError"
  | .parsing => "ParseError"
  | .modules => "ModuleGraphError"
  | .semantic => "SemanticError"
  | .controlFlow => "ControlFlowError"
  | .backend => "BackendError"

/-- The class of the diagnostics with a cause. A cause without a class of its own has that of its kind. -/
def Cause.className : Cause → String
  | .unterminatedString => "UnterminatedStringError"
  | .invalidCharacter _ => "InvalidCharacterError"
  | .unexpectedToken _ _ => "UnexpectedTokenError"
  | .missingToken _ _ => "MissingTokenError"
  | .unresolvedImport _ _ _ _ => "UnresolvedImportError"
  | .duplicateModule _ _ => "DuplicateModuleError"
  | .undefinedSymbol _ _ _ => "UndefinedSymbolError"
  | .ambiguousReference _ _ => "AmbiguousReferenceError"
  | .typeMismatch _ _ _ => "TypeMismatchError"
  | .arityMismatch _ _ _ _ => "ArityMismatchError"
  | .duplicateField _ _ => "DuplicateFieldError"
  | .missingField _ _ => "MissingFieldError"
  | .unknownField _ _ _ => "UnknownFieldError"
  | .duplicateDeclaration _ _ _ => "DuplicateDeclarationError"
  | .missingReturn _ _ => "MissingReturnError"
  | .loopControl _ => "LoopControlError"
  | .multipleEntryPoints _ => "MultipleEntryPointsError"
  | .unknownBackend _ _ => "UnknownBackendError"
  | .cannotLower _ _ _ => "BackendLoweringError"
  | cause => cause.category.className

/-- The class of a defect: which kind of use went wrong. -/
def Defect.className : Defect → String
  | .digitLimit _ | .backendTaken _ _ | .notInteger _ | .notOperator _ _ => "ValueError"
  | .missingPart _ => "AttributeError"
  | .missingKey _ => "KeyError"
  | .missingArgument | .missingTypeArgument => "IndexError"
  | .unknownExpression _ | .unknownStatement _ | .unknownTypeExpr _ | .unknownUnary | .incomparable _
  | .notOneCharacter _ => "TypeError"

def Failure.className : Failure → String
  | .diagnostic d => d.cause.className
  | .defect d => d.className

/-- The source with its text in canonical form, if it can be read. -/
def Source.format (source : Source) : Except Failure Source := do
  let module_ ← Module.ofSource source.file source.text
  let text ← module_.print
  return { source with text }

/-- Two compilations that end alike: with one output, or with failures of one class. -/
inductive EndsAlike : Except Failure Compiled → Except Failure Compiled → Prop
  | output {first second : Compiled} : first.output = second.output → EndsAlike (.ok first) (.ok second)
  | failure {first second : Failure} : first.className = second.className → EndsAlike (.error first) (.error second)

section
variable {move : Location → Location}

@[simp] theorem Failure.className_relocate (failure : Failure) :
    (failure.relocate move).className = failure.className := by
  cases failure with
  | diagnostic d =>
    obtain ⟨cause, location, sourceLine⟩ := d
    cases cause <;> rfl
  | defect d => cases d <;> rfl

/-- A backend that writes programs without looking at the places in them. -/
def IgnoresPlaces (backend : Backend) : Prop :=
  ∀ (move : Location → Location) (program : Program) (emitEntry : Bool),
    (backend.generate (program.relocate move) emitEntry).outcome =
      relocateOutcome move id (backend.generate program emitEntry).outcome

/-- The Rust backend writes the same text, or fails alike, wherever the nodes of a program stand. -/
theorem Rust.generate_relocate (program : Program) (emitEntry : Bool) :
    (Rust.generate (program.relocate move) emitEntry).outcome =
      relocateOutcome move id (Rust.generate program emitEntry).outcome := by
  rw [Rust.outcome_generate, Rust.outcome_generate]
  exact bind_relocate (Rust.crateLines_relocate program emitEntry) fun _ => rfl

/-- So does the canonical backend. -/
theorem Canonical.generate_relocate (program : Program) (emitEntry : Bool) :
    (Canonical.generate (program.relocate move) emitEntry).outcome =
      relocateOutcome move id (Canonical.generate program emitEntry).outcome := by
  have htrees : (program.relocate move).graph.userModules.map (·.tree) =
      (program.graph.userModules.map (·.tree)).map (Module.relocate move) := by
    change (program.graph.relocate move).userModules.map (·.tree) = _
    rw [Graph.userModules_relocate, map_map, map_map]
    rfl
  rw [Canonical.outcome_generate, Canonical.outcome_generate, htrees, Canonical.texts_relocate]

/-- No standard backend looks at places. -/
theorem ignoresPlaces_of_get_standard {id : Scalar} {backend : Backend} (h : Backends.standard.get id = .ok backend) :
    IgnoresPlaces backend := by
  rw [Backends.get] at h
  split at h
  · next found hfound =>
    cases h
    have hmem := mem_of_find?_eq_some hfound
    simp only [Backends.standard, mem_cons, not_mem_nil, or_false] at hmem
    rcases hmem with rfl | rfl
    · exact fun move => Rust.generate_relocate
    · exact fun move => Canonical.generate_relocate
  · simp [bind_eq_ok_iff] at h

/-- A program is assembled, checked and written whatever the places in it are. -/
theorem IgnoresPlaces.write_relocate {backend : Backend} (h : IgnoresPlaces backend) (emitEntry : Bool)
    (modules : List Module) (prelude : Option Module) :
    backend.write emitEntry (modules.map (Module.relocate move)) (prelude.map (Module.relocate move)) =
      relocateOutcome move (fun written => (written.1, written.2.relocate move))
        (backend.write emitEntry modules prelude) := by
  rw [Backend.write, Backend.write]
  refine bind_relocate (Graph.build_relocate modules prelude) fun graph => ?_
  refine bind_relocate graph.check_relocate fun program => ?_
  exact bind_relocate (h move program emitEntry) fun _ => rfl

end

/-- A source and the one with its text in canonical form are read as modules that differ only in the
    places of their parts. -/
structure Source.Formats (source formatted : Source) (module_ module_' : Module) : Prop where
  format : source.format = .ok formatted
  print : module_.print = .ok formatted.text
  file : formatted.file = source.file
  read : Module.ofSource source.file source.text = .ok module_
  again : Module.ofSource formatted.file formatted.text = .ok module_'
  relocate : ∀ place : Location, module_.relocate (fun _ => place) = module_'.relocate fun _ => place

/-- A source that can be read can be formatted, and its formatted text can be read. -/
theorem Source.exists_formats {source : Source} {module_ : Module}
    (h : Module.ofSource source.file source.text = .ok module_) :
    ∃ formatted module_', source.Formats formatted module_ module_' := by
  obtain ⟨hspellable, hgrouped⟩ := Module.settled_of_ofSource h
  obtain ⟨text, hprint, hreads⟩ := hspellable.reads
  obtain ⟨module_', hread, hsame⟩ := hreads source.file
  rw [hgrouped] at hsame
  have hformat : source.format = .ok { source with text } := by
    rw [Source.format, h, ok_bind, hprint, ok_bind, pure_eq_ok]
  have hfile : module_.file = module_'.file := by rw [Module.file_of_ofSource h, Module.file_of_ofSource hread]
  exact ⟨{ source with text }, module_', hformat, hprint, rfl, h, hread,
    fun place => (Module.same_iff place hfile).1 hsame⟩

/-- Sources that can be read can be formatted, and are read as before except for places. -/
theorem exists_format_of_accepted {sources : List Source}
    (haccepted : ∀ source ∈ sources, ∃ module_, Module.ofSource source.file source.text = .ok module_) :
    ∃ formatted modules modules', sources.mapM Source.format = .ok formatted ∧
      sources.mapM (fun source => Module.ofSource source.file source.text) = .ok modules ∧
      formatted.mapM (fun source => Module.ofSource source.file source.text) = .ok modules' ∧
      ∀ place : Location, modules.map (Module.relocate fun _ => place) =
        modules'.map (Module.relocate fun _ => place) := by
  induction sources with
  | nil => exact ⟨[], [], [], rfl, rfl, rfl, fun _ => rfl⟩
  | cons source sources ih =>
    obtain ⟨⟨module_, hread⟩, hothers⟩ := forall_mem_cons.1 haccepted
    obtain ⟨first, module_', hfirst⟩ := Source.exists_formats hread
    obtain ⟨formatted, modules, modules', hformat, hmodules, hmodules', hrelocate⟩ := ih hothers
    refine ⟨first :: formatted, module_ :: modules, module_' :: modules', ?_, ?_, ?_, fun place => ?_⟩
    · rw [mapM_cons, hfirst.format, ok_bind, hformat, ok_bind, pure_eq_ok]
    · rw [mapM_cons, hfirst.read, ok_bind, hmodules, ok_bind, pure_eq_ok]
    · rw [mapM_cons, hfirst.again, ok_bind, hmodules', ok_bind, pure_eq_ok]
    · rw [map_cons, map_cons, hfirst.relocate, hrelocate]

/-- Programs that differ only in places end alike. -/
theorem endsAlike_of_relocate {move : Location → Location} {work work' : Except Failure (String × Program)}
    {name : String} {tokens tokens' : Nat}
    (h : relocateOutcome move (fun written => (written.1, written.2.relocate move)) work =
      relocateOutcome move (fun written => (written.1, written.2.relocate move)) work') :
    EndsAlike (work >>= fun written => return ⟨written.1, written.2, name, tokens⟩)
      (work' >>= fun written => return ⟨written.1, written.2, name, tokens'⟩) := by
  cases work with
  | error failure =>
    cases work' with
    | error failure' =>
      have hfailure : failure.relocate move = failure'.relocate move := Except.error.inj h
      apply EndsAlike.failure
      rw [← @Failure.className_relocate move failure, hfailure, Failure.className_relocate]
    | ok written' => cases h
  | ok written =>
    cases work' with
    | error failure' => cases h
    | ok written' =>
      rw [relocateOutcome_ok, relocateOutcome_ok, Except.ok.injEq, Prod.mk.injEq] at h
      exact .output h.1

/-- Sources whose modules are equal except for places are compiled alike, by any standard backend. -/
theorem endsAlike_of_modules (options : Options) {sources sources' : List Source} {modules modules' : List Module}
    {place : Location}
    (hmodules : sources.mapM (fun source => Module.ofSource source.file source.text) = .ok modules)
    (hmodules' : sources'.mapM (fun source => Module.ofSource source.file source.text) = .ok modules')
    (hrelocate : modules.map (Module.relocate fun _ => place) = modules'.map (Module.relocate fun _ => place)) :
    EndsAlike (options.compile .standard sources).outcome (options.compile .standard sources').outcome := by
  rw [Options.outcome_compile, Options.outcome_compile, hmodules, hmodules']
  cases hget : Backends.standard.get options.backend with
  | error failure => exact .failure rfl
  | ok backend =>
    simp only [ok_bind]
    cases preludeModule options.withPrelude with
    | error failure => exact .failure rfl
    | ok prelude =>
      have hwrite := @IgnoresPlaces.write_relocate (fun _ => place) backend (ignoresPlaces_of_get_standard hget)
        options.emitEntry
      apply endsAlike_of_relocate
      rw [← hwrite modules prelude, hrelocate, hwrite modules' prelude]

/-- The canonical backend writes a single module in its canonical form. -/
theorem print_of_compile_canonical {options : Options} {source : Source} {compiled : Compiled} {module_ : Module}
    (hbackend : options.backend = .number 1) (hread : Module.ofSource source.file source.text = .ok module_)
    (h : (options.compile .standard [source]).outcome = .ok compiled) : module_.print = .ok compiled.output := by
  have hget : Backends.standard.get (.number 1) = .ok ⟨.number 1, "smpl", ".smpl", Canonical.generate⟩ := rfl
  have hmodules : [source].mapM (fun source => Module.ofSource source.file source.text) = .ok [module_] := by
    rw [mapM_cons, hread]
    rfl
  rw [Options.outcome_compile, hbackend, hget, ok_bind, hmodules, ok_bind] at h
  simp only [bind_eq_ok_iff, Backend.write, pure_eq_ok_iff] at h
  obtain ⟨prelude, _, _, ⟨graph, hgraph, program, hprogram, output, houtput, rfl⟩, rfl⟩ := h
  obtain ⟨_, rfl⟩ := Graph.build_eq_ok_iff.1 hgraph
  obtain ⟨types, structs, signatures, _, _, _, _, hregistry, _⟩ := Graph.check_eq_ok_iff.1 hprogram
  have htrees : program.graph.userModules.map (·.tree) = [module_] := by
    rw [Program.graph, hregistry, Graph.map_tree_userModules_ofTrees]
  rw [Canonical.outcome_generate, htrees, Canonical.texts, mapM_cons] at houtput
  cases hprint : module_.print with
  | error failure =>
    rw [hprint] at houtput
    cases houtput
  | ok text =>
    rw [hprint] at houtput
    cases houtput
    rfl

/-- Formatting first never changes a compilation, and the canonical backend's output for a single
    module is compiled to itself. -/
theorem Options.compile_format (options : Options) (sources : List Source)
    (haccepted : ∀ source ∈ sources, ∃ module_, Module.ofSource source.file source.text = .ok module_) :
    ∃ formatted, sources.mapM Source.format = .ok formatted ∧
      EndsAlike (options.compile .standard sources).outcome (options.compile .standard formatted).outcome ∧
      ∀ source compiled, sources = [source] → options.backend = .number 1 →
        (options.compile .standard [source]).outcome = .ok compiled →
        ∃ again, (options.compile .standard [{ source with text := compiled.output }]).outcome = .ok again ∧
          again.output = compiled.output := by
  obtain ⟨formatted, modules, modules', hformat, hmodules, hmodules', hrelocate⟩ := exists_format_of_accepted haccepted
  have halike := endsAlike_of_modules options hmodules hmodules' (hrelocate default)
  refine ⟨formatted, hformat, halike, ?_⟩
  intro source compiled hsingle hbackend hcompiled
  subst hsingle
  obtain ⟨module_, hread⟩ := haccepted source mem_cons_self
  have hprint := print_of_compile_canonical hbackend hread hcompiled
  have hformatted : formatted = [{ source with text := compiled.output }] := by
    have hsource : source.format = .ok { source with text := compiled.output } := by
      rw [Source.format, hread, ok_bind, hprint, ok_bind, pure_eq_ok]
    rw [mapM_cons, hsource, ok_bind, mapM_nil, pure_eq_ok, ok_bind, pure_eq_ok] at hformat
    exact (Except.ok.inj hformat).symm
  rw [hcompiled, hformatted] at halike
  generalize (options.compile .standard [{ source with text := compiled.output }]).outcome = outcome at halike ⊢
  cases halike with
  | output houtput => exact ⟨_, rfl, houtput.symm⟩

/-- A source that is far from canonical, by the Rust backend and by the canonical one. -/
theorem Options.compile_format_canonical :
    let options : Options := { backend := .number 1, withPrelude := false, emitEntry := false }
    let source : Source := ⟨"a.smpl", "mod a;fn f(x:int)->int{if(x<1){return- -x;}return f((x))*2;}//end"⟩
    ∃ formatted compiled again, [source].mapM Source.format = .ok formatted ∧
      EndsAlike (options.compile .standard [source]).outcome (options.compile .standard formatted).outcome ∧
      (options.compile .standard [source]).outcome = .ok compiled ∧
      (options.compile .standard [{ source with text := compiled.output }]).outcome = .ok again ∧
      again.output = compiled.output := by
  intro options source
  have hread : ((Module.ofSource source.file source.text).toOption.any fun _ => true) = true := by decide +kernel
  have hcompile : ((options.compile .standard [source]).outcome.toOption.any fun _ => true) = true := by decide +kernel
  obtain ⟨module_, hmodule, _⟩ := exists_eq_ok_of_any hread
  obtain ⟨compiled, hcompiled, _⟩ := exists_eq_ok_of_any hcompile
  obtain ⟨formatted, hformat, halike, hagain⟩ :=
    Options.compile_format options [source] (forall_mem_singleton.2 ⟨module_, hmodule⟩)
  obtain ⟨again, hcompiled', houtput⟩ := hagain source compiled rfl rfl hcompiled
  exact ⟨formatted, compiled, again, hformat, halike, hcompiled, hcompiled', houtput⟩

end Smpl
