import Smpl.Proofs.Print.RoundTrip
import Smpl.Proofs.Typing.Program

namespace Smpl

theorem colon_notMem_of_isName {text : String} (h : isName text = true) : ':' ∉ text.toList := by
  unfold isName at h
  intro hmem
  split at h
  · cases h
  · next c rest hlist =>
    rw [hlist] at hmem
    simp only [Bool.and_eq_true, List.all_eq_true] at h
    rcases List.mem_cons.1 hmem with rfl | hrest
    · exact absurd h.1.1 (by decide)
    · exact absurd (h.1.2 ':' hrest) (by decide)

theorem Item.Spellable.isName {item : Item} (h : item.Spellable) : isName item.name = true := by
  cases h with
  | use hname | struct hname | opaqueType hname => exact hname
  | function hheader | builtin hheader => exact hheader.name

theorem Module.Spellable.isName_knownName {module_ : Module} (h : module_.Spellable) :
    isName module_.knownName = true := by
  have hdefault : isName defaultModuleName = true := by decide
  unfold Module.knownName
  split
  · exact hdefault
  · next name hname =>
    split
    · exact hdefault
    · exact h.name name hname

theorem Module.Spellable.isPlain {module_ : Module} (h : module_.Spellable) {item : Item}
    (hitem : item ∈ module_.items) :
    (ItemName.mk module_.knownName item.name).IsPlain :=
  ⟨colon_notMem_of_isName h.isName_knownName, colon_notMem_of_isName (h.items item hitem).isName⟩

namespace Graph

/-- In a graph of modules that were read from texts all full names are plain. -/
theorem plain_of_build {trees : List Module} {prelude : Option Module} {graph : Graph}
    (htrees : ∀ tree ∈ trees, tree.Spellable) (hprelude : ∀ tree ∈ prelude, tree.Spellable)
    (h : build trees prelude = .ok graph) : graph.Plain := by
  rintro owner item ⟨module_, hmodule, rfl, hitem, _⟩
  obtain ⟨hwell, hgiven⟩ := build_spec h
  have hspellable : module_.tree.Spellable := by
    rcases hgiven module_ hmodule with hgiven | hgiven
    · exact hprelude _ hgiven
    · exact htrees _ hgiven
  rw [(hwell.modules module_ hmodule).name]
  exact hspellable.isPlain hitem

end Graph

namespace Registry.Describes

variable {registry : Registry} (h : registry.Describes) {owner : String}
include h

/-- In a checked function every expression carries the only type that the rules give it. -/
theorem hasType_iff_of_function {item : Item} {loc : Location} {header : Header TypedTypeExpr} {body : Block TypedStmt}
    {signature : Signature} (hdeclares : registry.graph.Declares owner item)
    (hitem : registry.ChecksItem owner item (.function loc header body signature)) :
    registry.graph.Signs owner header.erase signature.params signature.result ∧
      ∀ vars e, TypedStmt.Holds (signature.params.lookup ·) body.statements vars e →
        ∀ type, HasType (registry.graph.site owner header.erase) vars e.erase type ↔ type = e.type := by
  have herase := hitem.erase
  cases hitem with
  | @function _ written body' _ _ hchecked hbody =>
    obtain rfl : header.erase = written := (Item.function.inj herase).2.1
    have hknows := h.knows hdeclares (typeNamesOf (header.erase.typeParamsOf owner))
    refine ⟨((Graph.checkHeader_iff_signs hknows).1 ⟨header, hchecked, rfl, rfl⟩).2.2, ?_⟩
    intro vars e hholds type
    obtain ⟨scope, e', rfl, he'⟩ := Context.exists_expr_of_body hbody hholds
    exact (h.bodyContext_knows hdeclares _).hasType_iff_of_expr he'

end Registry.Describes

namespace Graph

/-- A program of modules that were read from texts is accepted exactly if it follows the typing rules.
    If it is accepted, the checked modules are the modules that were read, and each expression in them
    carries the one type that the rules give it. -/
theorem check_iff_wellTyped {trees : List Module} {prelude : Option Module} {graph : Graph}
    (htrees : ∀ tree ∈ trees, ∃ file source, Module.ofSource file source = .ok tree)
    (hprelude : ∀ tree ∈ prelude, ∃ file source, Module.ofSource file source = .ok tree)
    (hbuild : Graph.build trees prelude = .ok graph) :
    ((∃ program, graph.check.outcome = .ok program) ↔ graph.WellTyped) ∧
      ∀ program, graph.check.outcome = .ok program →
        program.modules.map TypedModule.erase = graph.modules.map (·.tree) ∧
        ∀ module_ ∈ program.modules, ∀ loc header body signature,
          TypedItem.function loc header body signature ∈ module_.items →
            graph.Signs module_.name header.erase signature.params signature.result ∧
            ∀ vars e, TypedStmt.Holds (signature.params.lookup ·) body.statements vars e →
              ∀ type, HasType (graph.site module_.name header.erase) vars e.erase type ↔ type = e.type := by
  have hspellable : ∀ {tree : Module}, (∃ file source, Module.ofSource file source = .ok tree) → tree.Spellable := by
    rintro tree ⟨file, source, htree⟩
    exact (Module.settled_of_ofSource htree).1
  have hwell := (build_spec hbuild).1
  have hplain : graph.Plain :=
    plain_of_build (fun tree htree => hspellable (htrees tree htree))
      (fun tree htree => hspellable (hprelude tree htree))
      hbuild
  refine ⟨hwell.exists_check_iff hplain, fun program hprogram => ?_⟩
  obtain ⟨types, structs, signatures, htypes, hstructs, hsignatures, _, hregistry, hmodules⟩ :=
    check_eq_ok_iff.1 hprogram
  rw [hregistry] at hmodules
  refine ⟨Registry.erase_of_checkModules hmodules, fun module_ hmodule loc header body signature hitem => ?_⟩
  obtain ⟨owner, howner, hname, item, hmem, hchecks⟩ := Registry.exists_checksItem hmodules hmodule hitem
  rw [← hname]
  have huse : item.isUse = false := by
    cases hchecks
    rfl
  exact (hwell.registry_describes hplain htypes hstructs hsignatures).hasType_iff_of_function
    ⟨owner, howner, rfl, hmem, huse⟩ hchecks

/-- Two modules with a struct and a call of a generic function follow the rules. -/
theorem check_iff_wellTyped_generic :
    ∃ util app graph program,
      Module.ofSource "util"
        "mod util; struct P {x: int} fn or(type T)(a: T, b: T, c: bool) -> T {if c {return a;} return b;}" =
        .ok util ∧
      Module.ofSource "app"
        "mod app; use util; fn main() {let p: P = P {x: 1}; p.x = or(type int)(p.x + 1, 2, true);}" =
        .ok app ∧
      Graph.build [util, app] none = .ok graph ∧ graph.check.outcome = .ok program ∧ graph.WellTyped ∧
      program.modules.map TypedModule.erase = graph.modules.map (·.tree) := by
  simp only [exists_and_left]
  refine exists_ok₄ (p := fun _ _ _ _ => true)
    (by decide +kernel) fun util app graph program hutil happ hgraph hcheck _ => ?_
  have htrees : ∀ tree ∈ [util, app], ∃ file source, Module.ofSource file source = .ok tree :=
    List.forall_mem_cons.2 ⟨⟨_, _, hutil⟩, List.forall_mem_singleton.2 ⟨_, _, happ⟩⟩
  have hprelude : ∀ tree ∈ (none : Option Module), ∃ file source, Module.ofSource file source = .ok tree := nofun
  obtain ⟨hiff, hdecorated⟩ := check_iff_wellTyped htrees hprelude hgraph
  exact ⟨hiff.1 ⟨program, hcheck⟩, (hdecorated program hcheck).1⟩

end Graph

end Smpl
