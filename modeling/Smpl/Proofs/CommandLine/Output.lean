import Smpl.CommandLine.Run
import Smpl.Proofs.Compile.Failure

namespace Smpl

open List

namespace PathName

variable {path : PathName}

/-- A path that only goes down: each part is the name of an entry of a directory. -/
def Descends (path : PathName) : Prop :=
  ∀ part ∈ path.parts, part ≠ "" ∧ part ≠ "." ∧ part ≠ ".."

theorem eq_of_parts {path' : PathName} (hroot : path.root = path'.root) (hparts : path.parts = path'.parts) :
    path = path' := by
  cases path
  cases hroot
  cases hparts
  rfl

theorem descends_ofText {text : String} (h : ".." ∉ (ofText text).parts) : (ofText text).Descends := by
  intro part hpart
  have hkept := (mem_filter.1 hpart).2
  simp only [Bool.and_eq_true, decide_eq_true_eq] at hkept
  exact ⟨hkept.1, hkept.2, fun heq => h (heq ▸ hpart)⟩

theorem withSuffix_eq (h : path.parts ≠ []) (suffix : String) :
    path.withSuffix suffix =
      { path with parts := path.parts.dropLast ++ [String.ofList (stem (path.parts.getLast h).toList) ++ suffix] } := by
  rw [withSuffix, getLast?_eq_some_getLast h]

theorem root_withSuffix (path : PathName) (suffix : String) : (path.withSuffix suffix).root = path.root := by
  unfold withSuffix
  split <;> rfl

/-- A suffix of three or more characters makes a name of its own. -/
theorem Descends.withSuffix (h : path.Descends) {suffix : String} (hsuffix : 3 ≤ suffix.length) :
    (path.withSuffix suffix).Descends := by
  by_cases hparts : path.parts = []
  · have hsame : path.withSuffix suffix = path := by rw [PathName.withSuffix, hparts, getLast?_nil]
    rwa [hsame]
  rw [withSuffix_eq hparts]
  refine forall_mem_append.2 ⟨fun part hpart => h part (dropLast_subset _ hpart), ?_⟩
  refine forall_mem_singleton.2 ?_
  have hlength : 3 ≤ (String.ofList (stem (path.parts.getLast hparts).toList) ++ suffix).length := by
    rw [String.length_append]
    omega
  refine ⟨?_, ?_, ?_⟩ <;> intro heq <;> rw [heq] at hlength <;> revert hlength <;> decide

end PathName

namespace Files

/-- Following names that only go down adds them to the place. -/
theorem follow_of_descends {files : Files} {place reached parts : List String}
    (hparts : ∀ part ∈ parts, part ≠ "" ∧ part ≠ "." ∧ part ≠ "..") (h : files.follow place parts = .ok reached) :
    reached = place ++ parts := by
  induction parts generalizing place with
  | nil =>
    cases h
    rw [append_nil]
  | cons part parts ih =>
    obtain ⟨⟨hempty, hdot, hdots⟩, hothers⟩ := forall_mem_cons.1 hparts
    rw [follow] at h
    split at h
    · cases h
    split at h
    · cases h
    simp only [hempty, hdot, decide_false, Bool.or_self, Bool.false_eq_true, if_false] at h
    split at h
    · cases h
    rw [ih hothers h, append_assoc, singleton_append]

/-- A path that only goes down leads to the place that it spells. -/
theorem placeOf_of_descends {files : Files} {place : List String} (hpath : path.Descends)
    (h : files.placeOf path = .ok place) : place = (if path.root = "" then [] else rootPlace) ++ path.parts := by
  unfold placeOf Files.place at h
  split at h
  · cases h
  split at h
  · cases h
  exact follow_of_descends hpath h

end Files

/-- Both names that are tried have to be inputs for one to be written to. -/
theorem defaultOutput_mem_iff {first : PathName} {inputs : List PathName} {extension : String} :
    defaultOutput first inputs extension ∈ inputs ↔
      first.withSuffix extension ∈ inputs ∧ first.withSuffix (".out" ++ extension) ∈ inputs := by
  unfold defaultOutput
  by_cases hfirst : first.withSuffix extension ∈ inputs <;> simp [hfirst]

/-- The default output is the first input with another suffix, no shorter than the extension. -/
theorem exists_defaultOutput_eq (first : PathName) (inputs : List PathName) (extension : String) :
    ∃ suffix, extension.length ≤ suffix.length ∧ defaultOutput first inputs extension = first.withSuffix suffix := by
  unfold defaultOutput
  dsimp only
  split
  · exact ⟨".out" ++ extension, by simp, rfl⟩
  · exact ⟨extension, Nat.le_refl _, rfl⟩

namespace Command

variable {command : Command} {around : Surroundings} {backends : Backends} {written : PathName × String}

theorem exists_of_written_finish {stdout : String} {notes : List String} {result : Except CommandFault Outcome}
    (h : (command.finish stdout notes result).written = some written) :
    ∃ outcome, result = .ok outcome ∧ outcome.written = some written := by
  cases result with
  | error fault => cases h
  | ok outcome => exact ⟨outcome, rfl, h⟩

/-- A command writes to its output only, and to none but the default one if it has none. -/
theorem eq_of_written_run (h : (command.run around backends).written = some written) :
    ∃ first rest backend, command.sources = first :: rest ∧ backends.get (.number command.backend) = .ok backend ∧
      written.1 = command.output.getD (defaultOutput first command.sources backend.extension) := by
  unfold run at h
  split at h
  · obtain ⟨outcome, houtcome, hwritten⟩ := exists_of_written_finish h
    obtain ⟨available, _, hpure⟩ := bind_eq_ok_iff.1 houtcome
    cases hpure
    cases hwritten
  split at h
  · cases h
  · next first rest hsources =>
    split at h
    · unfold printTrees at h
      split at h
      · cases h
      · obtain ⟨outcome, houtcome, hwritten⟩ := exists_of_written_finish h
        simp only [bind_eq_ok_iff, pure_eq_ok] at houtcome
        obtain ⟨_, _, _, _, hpure⟩ := houtcome
        cases hpure
        cases hwritten
    · unfold compile at h
      split at h
      · cases h
      · next backend hbackend =>
        refine ⟨first, rest, backend, hsources, hbackend, ?_⟩
        dsimp only at h
        split at h
        · cases h
        · obtain ⟨outcome, houtcome, hwritten⟩ := exists_of_written_finish h
          obtain ⟨compiled, _, hdeliver⟩ := bind_eq_ok_iff.1 houtcome
          unfold deliver at hdeliver
          split at hdeliver
          · cases hdeliver
            cases hwritten
          split at hdeliver
          · cases hdeliver
          · cases hdeliver
            cases hwritten
            rfl

end Command

/-- What is written was written by the command that the words ask for. -/
theorem exists_command_of_written {around : Surroundings} {backends : Backends} {words : List String} {args : Arguments}
    (hargs : Arguments.read words = .ok args) {written : PathName × String}
    (h : (runCommand around backends words).written = some written) :
    ∃ command, Command.ofArguments around args = .ok command ∧
      (command.run around backends).written = some written := by
  unfold runCommand at h
  rw [hargs] at h
  dsimp only at h
  split at h
  · cases h
  · cases h
  · split at h
    · cases h
    · cases h
    · next command hcommand => exact ⟨command, hcommand, h⟩

/-- The standard backends have extensions that are long enough to make a name. -/
theorem three_le_extension : ∀ backend ∈ Backends.standard, 3 ≤ backend.extension.length :=
  forall_mem_cons.2 ⟨by decide, forall_mem_singleton.2 (by decide)⟩

/-- No path of an input leads to the place that is written to. -/
def Outcome.Spares (outcome : Outcome) (files : Files) (inputs : List PathName) : Prop :=
  ∀ path text, outcome.written = some (path, text) → ∀ place, files.placeOf path = .ok place →
    ∀ input ∈ inputs, files.placeOf input ≠ .ok place

namespace Command

variable {command : Command} {first : PathName} {rest : List PathName} (hsources : command.sources = first :: rest)
  (houtput : command.output = none)
include hsources houtput

/-- A command without an output writes to the default one of its backend. -/
theorem written_eq_defaultOutput {around : Surroundings} {text : String}
    (h : (command.run around Backends.standard).written = some (path, text)) :
    ∃ backend ∈ Backends.standard, path = defaultOutput first (first :: rest) backend.extension := by
  obtain ⟨head, tail, backend, hcons, hbackend, hpath⟩ := eq_of_written_run h
  rw [hsources] at hcons hpath
  obtain ⟨rfl, rfl⟩ := List.cons.inj hcons
  rw [houtput] at hpath
  exact ⟨backend, Backends.mem_of_get hbackend, hpath⟩

/-- Paths that have one root and only go down lead to different places if they differ, so that a command whose default
    output is no input spares its inputs. -/
theorem spares_run (hapart : ∀ backend ∈ Backends.standard,
      defaultOutput first (first :: rest) backend.extension ∉ first :: rest)
    (hplain : ∀ input ∈ first :: rest, input.Descends ∧ input.root = first.root) (files : Files) :
    (command.run files.surroundings Backends.standard).Spares files (first :: rest) := by
  intro path text hwritten place hreached input hinput hplace
  obtain ⟨backend, hknown, hdefault⟩ := written_eq_defaultOutput hsources houtput hwritten
  obtain ⟨suffix, hlonger, hsuffix⟩ := exists_defaultOutput_eq first (first :: rest) backend.extension
  have hlength : 3 ≤ suffix.length := Nat.le_trans (three_le_extension backend hknown) hlonger
  have hpath : path = first.withSuffix suffix := hdefault.trans hsuffix
  have hspelled := Files.placeOf_of_descends (hplain input hinput).1 hplace
  rw [hpath] at hreached
  rw [Files.placeOf_of_descends ((hplain first mem_cons_self).1.withSuffix hlength) hreached,
    PathName.root_withSuffix, (hplain input hinput).2, append_cancel_left_eq] at hspelled
  have hsame : first.withSuffix suffix = input :=
    PathName.eq_of_parts ((PathName.root_withSuffix first suffix).trans (hplain input hinput).2.symm) hspelled
  exact hapart backend hknown ((hsuffix.trans hsame) ▸ hinput)

end Command

/-- The default output is an input exactly if both names that are tried for it are inputs, for which it takes two of
    them. If it is none, then a command without an output writes to no path of an input, and to no place that one leads
    to, as long as the paths of the inputs have one root and only go down. Links between files are not modelled. -/
theorem runCommand_keeps_inputs (first : PathName) (rest : List PathName) :
    (∀ extension, defaultOutput first (first :: rest) extension ∈ first :: rest ↔
      first.withSuffix extension ∈ first :: rest ∧ first.withSuffix (".out" ++ extension) ∈ first :: rest) ∧
    (first.parts ≠ [] → rest = [] → ∀ extension, defaultOutput first (first :: rest) extension ∉ first :: rest) ∧
    ((∀ backend ∈ Backends.standard, defaultOutput first (first :: rest) backend.extension ∉ first :: rest) →
      (∀ (command : Command) around path text, command.sources = first :: rest → command.output = none →
        (command.run around Backends.standard).written = some (path, text) → path ∉ first :: rest) ∧
      (∀ (command : Command) (files : Files), command.sources = first :: rest → command.output = none →
        (∀ input ∈ first :: rest, input.Descends ∧ input.root = first.root) →
        (command.run files.surroundings Backends.standard).Spares files (first :: rest)) ∧
      ∀ words args (files : Files), Arguments.read words = .ok args → args.value? .output = none →
        (args.values .input ++ args.files).map PathName.ofText = first :: rest →
        (∀ input ∈ first :: rest, input.root = first.root ∧ ".." ∉ input.parts) →
        (runCommand files.surroundings Backends.standard words).Spares files (first :: rest)) := by
  refine ⟨fun extension => defaultOutput_mem_iff, ?_, fun hapart => ⟨?_, ?_, ?_⟩⟩
  · rintro hname rfl extension hmem
    obtain ⟨hshort, hlong⟩ := defaultOutput_mem_iff.1 hmem
    have hsame := (mem_singleton.1 hshort).trans (mem_singleton.1 hlong).symm
    rw [PathName.withSuffix_eq hname, PathName.withSuffix_eq hname] at hsame
    have hlength := congrArg (fun path : PathName => (path.parts.map String.length).sum) hsame
    simp [String.length_append] at hlength
  · intro command around path text hsources houtput hwritten
    obtain ⟨backend, hknown, rfl⟩ := Command.written_eq_defaultOutput hsources houtput hwritten
    exact hapart backend hknown
  · intro command files hsources houtput hplain
    exact Command.spares_run hsources houtput hapart hplain files
  · intro words args files hargs houtput hinputs hplain path text hwritten
    obtain ⟨command, hcommand, hrun⟩ := exists_command_of_written hargs hwritten
    obtain ⟨_, _, hpure⟩ := bind_eq_ok_iff.1 hcommand
    cases hpure
    have hdescends : ∀ input ∈ first :: rest, input.Descends ∧ input.root = first.root := by
      intro input hinput
      obtain ⟨hroot, hdots⟩ := hplain input hinput
      obtain ⟨word, _, rfl⟩ := mem_map.1 (hinputs ▸ hinput)
      exact ⟨PathName.descends_ofText hdots, hroot⟩
    exact Command.spares_run hinputs (congrArg (·.map PathName.ofText) houtput) hapart hdescends files path text hrun

/-- The inputs are absolute, and the first name that is tried is the second of them. -/
theorem runCommand_keeps_inputs_absolute :
    let inputs := ["/tmp/b.smpl", "/tmp/b.rs"].map PathName.ofText
    let files : Files :=
      [(["/", "tmp", "b.smpl"], "mod b;".toUTF8.toList), (["/", "tmp", "b.rs"], "mod a;".toUTF8.toList)]
    let outcome := runCommand files.surroundings Backends.standard ["/tmp/b.rs", "--no-prelude", "-i", "/tmp/b.smpl"]
    outcome.written.map Prod.fst = some (.ofText "/tmp/b.out.rs") ∧ outcome.Spares files inputs := by
  intro inputs files outcome
  obtain ⟨args, hargs, heq⟩ := exists_eq_ok_of_any
    (x := Arguments.read ["/tmp/b.rs", "--no-prelude", "-i", "/tmp/b.smpl"])
    (p := (· = ⟨[.noPrelude], [(.input, "/tmp/b.smpl")], ["/tmp/b.rs"]⟩)) (by decide +kernel)
  cases of_decide_eq_true heq
  obtain ⟨_, _, hkeeps⟩ := runCommand_keeps_inputs (.ofText "/tmp/b.smpl") [.ofText "/tmp/b.rs"]
  obtain ⟨_, _, hspares⟩ := hkeeps (by decide +kernel)
  exact ⟨by decide +kernel, hspares _ _ files hargs rfl rfl (by decide +kernel)⟩

/-- The first input and the file that would be written in its place are both inputs: the second is written over. -/
theorem runCommand_overwrites_input :
    let inputs := ["a.rs", "a.out.rs"].map PathName.ofText
    let files : Files := [(["a.rs"], "mod a;".toUTF8.toList), (["a.out.rs"], "mod b;".toUTF8.toList)]
    defaultOutput (.ofText "a.rs") inputs ".rs" ∈ inputs ∧
      ((runCommand files.surroundings Backends.standard ["--no-prelude", "a.rs", "a.out.rs"]).changes files).map
        Prod.fst = [["a.out.rs"]] := by
  decide +kernel

end Smpl
