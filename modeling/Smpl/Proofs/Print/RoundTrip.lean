import Smpl.Proofs.Print.Derivation.Module
import Smpl.Proofs.Print.Module
import Smpl.Proofs.Print.Parsed.Module
import Smpl.Proofs.Print.Scanned

namespace Smpl

variable {file source : String} {module_ : Module}

open Grammar

/-- A text is read as a module exactly if its tokens are that module by the rules. -/
theorem Module.ofSource_eq_ok_iff :
    Module.ofSource file source = .ok module_ ↔
      ∃ stream, tokenize file source.toList = .ok stream ∧ SourceFile file stream module_ := by
  simp only [Module.ofSource, bind_eq_ok_iff, Module.parse_eq_ok_iff]

theorem Module.file_of_ofSource (h : Module.ofSource file source = .ok module_) : module_.file = file := by
  obtain ⟨stream, _, hfile⟩ := Module.ofSource_eq_ok_iff.1 h
  cases hfile
  rfl

/-- The canonical text of a spellable module is read back as the module with the parentheses that the
    text adds. -/
theorem Module.Spellable.reads (h : module_.Spellable) :
    ∃ text, module_.print = .ok text ∧
      ∀ file, ∃ module_', Module.ofSource file text = .ok module_' ∧ module_.grouped.same module_' = true := by
  obtain ⟨text, hprint, hlexes⟩ := h.lexes
  refine ⟨text, hprint, fun file => ?_⟩
  obtain ⟨stream, htokens, hkinds⟩ := hlexes.tokenize file
  obtain ⟨module_', hfile, hsame⟩ := h.derives file hkinds
  exact ⟨module_', Module.ofSource_eq_ok_iff.2 ⟨stream, htokens, hfile⟩, hsame⟩

/-- A parsed module is spellable, and its canonical text adds no parentheses. -/
theorem Module.settled_of_ofSource (h : Module.ofSource file source = .ok module_) :
    module_.Spellable ∧ module_.grouped = module_ := by
  obtain ⟨stream, htokens, hfile⟩ := Module.ofSource_eq_ok_iff.1 h
  exact hfile.settled (isSpellable_of_tokenize htokens)

/-- Whatever text a module was read from, its canonical text is read as the same module again, with
    its parentheses and no others. -/
theorem Module.ofSource_print {file source : String} {module_ : Module}
    (h : Module.ofSource file source = .ok module_) :
    ∃ text, module_.print = .ok text ∧
      ∀ file', ∃ module_', Module.ofSource file' text = .ok module_' ∧ module_.same module_' = true := by
  obtain ⟨hspellable, hgrouped⟩ := Module.settled_of_ofSource h
  have hreads := hspellable.reads
  rwa [hgrouped] at hreads

/-- Operators in a row, parentheses that are needed and some that are not. -/
theorem Module.ofSource_print_nested :
    ∃ module_, Module.ofSource "a.smpl" "fn f(a:float)->bool{return(a+0.1)*- -a<2.50&&!(true);}" = .ok module_ ∧
      ∃ text, module_.print = .ok text ∧
        ∀ file', ∃ module_', Module.ofSource file' text = .ok module_' ∧ module_.same module_' = true := by
  refine exists_ok (p := fun _ => true) (by decide +kernel) fun _ h _ => ?_
  exact Module.ofSource_print h

end Smpl
