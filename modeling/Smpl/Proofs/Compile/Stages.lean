import Smpl.Compile
import Smpl.Proofs.Checker.Program

namespace Smpl

namespace Traced

/-- Notes aside, work on a list is that on its elements in order. -/
theorem outcome_mapM {α β : Type} (step : α → Traced β) (as : List α) :
    (as.mapM step).outcome = as.mapM fun a => (step a).outcome := by
  have hloop : ∀ done : List β,
      (List.mapM.loop step as done).outcome = List.mapM.loop (fun a => (step a).outcome) as done := by
    induction as with
    | nil => exact fun _ => rfl
    | cons a as ih =>
      intro done
      rw [List.mapM.loop, List.mapM.loop, outcome_bind]
      exact bind_congr fun b => ih (b :: done)
  exact hloop []

theorem outcome_andThen {α β : Type} (work : Traced α) (next : α → Traced β) :
    (work.andThen next).outcome = work.outcome >>= fun a => (next a).outcome :=
  outcome_bind work next

theorem outcome_uncounted {α : Type} (work : Traced α) : work.uncounted.outcome = work.outcome := rfl

end Traced

/-- A source is read as its text is. -/
theorem Source.outcome_read (source : Source) :
    source.read.outcome = Module.ofSource source.file source.text := by
  simp only [Source.read, Traced.outcome_bind, Traced.outcome_liftM, Traced.outcome_note, Traced.outcome_pure,
    Module.ofSource]
  refine bind_congr fun stream => ?_
  cases Module.parse source.file stream (sourceLines source.text) <;> rfl

theorem outcome_readSources (sources : List Source) :
    (readSources sources).outcome = sources.mapM fun source => Module.ofSource source.file source.text := by
  rw [readSources, Traced.outcome_andThen, Traced.outcome_mapM]
  simp only [Source.outcome_read]
  cases sources.mapM fun source => Module.ofSource source.file source.text <;> rfl

/-- Assembling a program, without its notes. -/
theorem outcome_assemble (modules : List Module) (prelude : Option Module) :
    (assemble modules prelude).outcome = Graph.build modules prelude := by
  rw [assemble, Traced.outcome_bind, Traced.outcome_liftM]
  cases Graph.build modules prelude <;> rfl

/-- The prelude that a program sees, if it sees one. -/
def preludeModule : Bool → Except Failure (Option Module)
  | false => .ok none
  | true => (Module.ofSource preludeSource.file preludeSource.text).map some

theorem outcome_readPrelude (wanted : Bool) : (readPrelude wanted).outcome = preludeModule wanted := by
  cases wanted with
  | false => rfl
  | true =>
    rw [readPrelude, Traced.outcome_bind, Traced.outcome_uncounted, Source.outcome_read, preludeModule]
    cases Module.ofSource preludeSource.file preludeSource.text <;> rfl

/-- What the Rust backend writes, without its notes. -/
theorem Rust.outcome_generate (program : Program) (emitEntry : Bool) :
    (Rust.generate program emitEntry).outcome = do
      let lines ← Rust.crateLines program emitEntry
      return "\n".intercalate lines ++ "\n" := by
  rw [Rust.generate, Traced.outcome_bind, Traced.outcome_liftM]
  cases Rust.crateLines program emitEntry <;> rfl

theorem Canonical.outcome_generate (program : Program) (emitEntry : Bool) :
    (Canonical.generate program emitEntry).outcome = Canonical.texts (program.graph.userModules.map (·.tree)) := by
  rw [Canonical.generate, Traced.outcome_bind, Traced.outcome_liftM]
  cases Canonical.texts (program.graph.userModules.map (·.tree)) <;> rfl

/-- What a backend writes for a program that has been read: it is assembled, checked and written. -/
def Backend.write (backend : Backend) (emitEntry : Bool) (modules : List Module) (prelude : Option Module) :
    Except Failure (String × Program) := do
  let graph ← Graph.build modules prelude
  let program ← graph.check.outcome
  let output ← (backend.generate program emitEntry).outcome
  return (output, program)

/-- The front end in stages: sources and prelude are read, assembled and checked. -/
theorem Options.outcome_program (options : Options) (sources : List Source) :
    (options.program sources).outcome = (do
      let modules ← sources.mapM fun source => Module.ofSource source.file source.text
      let prelude ← preludeModule options.withPrelude
      let graph ← Graph.build modules prelude
      graph.check.outcome) := by
  simp only [Options.program, Options.graph, Traced.outcome_bind, outcome_readSources, outcome_readPrelude,
    outcome_assemble, bind_assoc]
  refine bind_congr fun modules => bind_congr fun prelude => bind_congr fun graph => ?_
  cases graph.check.outcome <;> rfl

/-- Compilation in stages: the backend is found, the sources and the prelude are read, and what was
    read is written. -/
theorem Options.outcome_compile (options : Options) (backends : Backends) (sources : List Source) :
    (options.compile backends sources).outcome = do
      let backend ← backends.get options.backend
      let modules ← sources.mapM fun source => Module.ofSource source.file source.text
      let prelude ← preludeModule options.withPrelude
      let written ← backend.write options.emitEntry modules prelude
      return ⟨written.1, written.2, backend.name, (options.program sources).tokens⟩ := by
  simp only [Options.compile, Options.compileWith, Traced.outcome_bind, Traced.outcome_andThen, Traced.outcome_liftM,
    Options.outcome_program, Backend.write, Backends.generate, Traced.outcome_note, Traced.outcome_pure, bind_assoc]
  cases hget : backends.get options.backend with
  | error failure => rfl
  | ok backend =>
    simp only [ok_bind, pure_bind]
    refine bind_congr fun modules => bind_congr fun prelude => bind_congr fun graph => bind_congr fun program => ?_
    cases (backend.generate program options.emitEntry).outcome <;> rfl

end Smpl
