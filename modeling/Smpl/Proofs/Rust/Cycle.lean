import Smpl.Proofs.Extend.Rust

namespace Smpl

open List

/-- A value of the type is built from a value of the struct: itself, as an element, or as an argument of an opaque
    type. What a function takes or gives is not part of it. -/
inductive Ty.HoldsValue (struct : ItemName) : Ty → Prop
  | struct : HoldsValue struct (.struct struct)
  | element {element : Ty} {length : Int} : HoldsValue struct element → HoldsValue struct (.array element length)
  | argument {name : ItemName} {args : List Ty} {arg : Ty} :
    arg ∈ args → HoldsValue struct arg → HoldsValue struct (.opaqueType name args)

theorem Ty.mem_holds_iff {type : Ty} {part : String} :
    part ∈ type.holds ↔ ∃ struct : ItemName, struct.text = part ∧ type.HoldsValue struct := by
  constructor
  · intro h
    induction type using Ty.induct with
    | struct name => exact ⟨name, (mem_singleton.1 h).symm, .struct⟩
    | array element length ih =>
      obtain ⟨struct, htext, hholds⟩ := ih h
      exact ⟨struct, htext, .element hholds⟩
    | opaqueType name args ih =>
      rw [Ty.holds, Rust.Ty.holdsList_eq_flatMap] at h
      obtain ⟨arg, harg, h⟩ := mem_flatMap.1 h
      obtain ⟨struct, htext, hholds⟩ := ih arg harg h
      exact ⟨struct, htext, .argument harg hholds⟩
    | primitive | param | function | reference => cases h
  · rintro ⟨struct, rfl, h⟩
    induction h with
    | struct => exact mem_singleton_self _
    | element _ ih => exact ih
    | argument harg _ ih =>
      rw [Ty.holds, Rust.Ty.holdsList_eq_flatMap]
      exact mem_flatMap.2 ⟨_, harg, ih⟩

namespace Rust

/-- A struct has a field whose values are built from values of another one. Both are given by their full names. -/
def Contains (structs : Table StructInfo) (name part : String) : Prop :=
  ∃ info, structs.find? name = some info ∧ ∃ field ∈ info.fields, ∃ struct : ItemName,
    struct.text = part ∧ field.2.HoldsValue struct

theorem contains_eq_holds (structs : Table StructInfo) : Contains structs = Holds structs := by
  funext name part
  simp only [Contains, Holds, StructInfo.holds, mem_flatMap, Ty.mem_holds_iff]

mutual

/-- What the search does at a struct, with the structs on the path to it and those that are done, and what comes out.
    Nothing bounds how deep it goes. -/
inductive Visits (structs : Table StructInfo) : List String → List String → String → Except Failure (List String) → Prop
  | again {path done : List String} {name : String} :
    name ∈ path → Visits structs path done name (recursiveStruct structs path name)
  | skip {path done : List String} {name : String} :
    name ∉ path → name ∈ done → Visits structs path done name (.ok done)
  | enter {path done : List String} {name : String} {info : StructInfo} {outcome : Except Failure (List String)} :
    name ∉ path → name ∉ done → structs.require name = .ok info →
    VisitsAll structs (path ++ [name]) done info.holds outcome →
    Visits structs path done name (outcome.map (name :: ·))
  | unknown {path done : List String} {name : String} {failure : Failure} :
    name ∉ path → name ∉ done → structs.require name = .error failure → Visits structs path done name (.error failure)

/-- The search at some structs in turn. -/
inductive VisitsAll (structs : Table StructInfo) :
    List String → List String → List String → Except Failure (List String) → Prop
  | nil {path done : List String} : VisitsAll structs path done [] (.ok done)
  | next {path done after : List String} {name : String} {names : List String}
    {outcome : Except Failure (List String)} :
    Visits structs path done name (.ok after) → VisitsAll structs path after names outcome →
    VisitsAll structs path done (name :: names) outcome
  | stop {path done : List String} {name : String} {names : List String} {failure : Failure} :
    Visits structs path done name (.error failure) → VisitsAll structs path done (name :: names) (.error failure)

end

/-- The whole search comes to an end with an outcome. -/
def Searches (structs : Table StructInfo) (outcome : Except Failure Unit) : Prop :=
  ∃ visited, VisitsAll structs [] [] structs.keys visited ∧ outcome = visited.map fun _ => ()

section

variable {structs : Table StructInfo} {step : List String → String → Except Failure (List String)}
  {path done : List String} {outcome : Except Failure (List String)} {budget : Nat}

theorem visitsAll_foldlM (hstep : ∀ done name, Visits structs path done name (step done name))
    (names done : List String) : VisitsAll structs path done names (names.foldlM step done) := by
  induction names generalizing done with
  | nil => exact .nil
  | cons name names ih =>
    have hfirst := hstep done name
    rw [foldlM_cons]
    cases hname : step done name with
    | error failure =>
      rw [hname] at hfirst
      exact .stop hfirst
    | ok after =>
      rw [hname] at hfirst
      exact .next hfirst (ih after)

theorem foldlM_eq_of_visitsAll
    (hstep : ∀ {done name outcome}, Visits structs path done name outcome → step done name = outcome)
    {names : List String} (h : VisitsAll structs path done names outcome) : names.foldlM step done = outcome := by
  induction names generalizing done with
  | nil =>
    cases h
    rfl
  | cons name names ih =>
    rw [foldlM_cons]
    cases h with
    | next hfirst hrest => rw [hstep hfirst, ok_bind, ih hrest]
    | stop hfirst =>
      rw [hstep hfirst]
      rfl

/-- The search visits as its rules say while the budget lasts. -/
theorem visits_follow (hlasts : Lasts structs budget path) (done : List String) (name : String) :
    Visits structs path done name (follow structs budget path done name) := by
  induction budget generalizing path done name with
  | zero => exact absurd hlasts.budget_pos (Nat.lt_irrefl 0)
  | succ budget ih =>
    rw [follow]
    split
    · next hpath => exact .again (contains_iff_mem.1 hpath)
    next hpath =>
    split
    · next hdone => exact .skip (mt contains_iff_mem.2 hpath) (contains_iff_mem.1 hdone)
    next hdone =>
    have hnew := mt contains_iff_mem.2 hpath
    cases hrequire : structs.require name with
    | error failure => exact .unknown hnew (mt contains_iff_mem.2 hdone) hrequire
    | ok info =>
      have hparts := visitsAll_foldlM (ih (hlasts.enter hnew (require_eq_ok_iff.1 hrequire))) info.holds done
      have henter := Visits.enter hnew (mt contains_iff_mem.2 hdone) hrequire hparts
      rw [ok_bind]
      cases hafter : info.holds.foldlM (follow structs budget (path ++ [name])) done with
      | error failure | ok after =>
        rw [hafter] at henter
        exact henter

/-- The rules of the search determine what it returns. -/
theorem follow_eq_of_visits (hlasts : Lasts structs budget path) {name : String}
    (h : Visits structs path done name outcome) : follow structs budget path done name = outcome := by
  induction budget generalizing path done name outcome with
  | zero => exact absurd hlasts.budget_pos (Nat.lt_irrefl 0)
  | succ budget ih =>
    rw [follow]
    cases h with
    | again hpath => rw [if_pos (contains_iff_mem.2 hpath)]
    | skip hpath hdone => rw [if_neg (mt contains_iff_mem.1 hpath), if_pos (contains_iff_mem.2 hdone)]
    | unknown hpath hdone hrequire =>
      rw [if_neg (mt contains_iff_mem.1 hpath), if_neg (mt contains_iff_mem.1 hdone), hrequire]
      rfl
    | @enter _ _ _ _ visited hpath hdone hrequire hparts =>
      rw [if_neg (mt contains_iff_mem.1 hpath), if_neg (mt contains_iff_mem.1 hdone), hrequire, ok_bind,
        foldlM_eq_of_visitsAll (ih (hlasts.enter hpath (require_eq_ok_iff.1 hrequire))) hparts]
      cases visited <;> rfl

/-- The search ends in one way only, and a budget above the number of structs lasts until then. -/
theorem searches_iff {outcome : Except Failure Unit} : Searches structs outcome ↔
    outcome = checkContainment structs := by
  have hcheck : checkContainment structs =
      (structs.keys.foldlM (follow structs (structs.size + 1) []) []).map fun _ => () := by
    rw [checkContainment]
    cases structs.keys.foldlM (follow structs (structs.size + 1) []) [] <;> rfl
  rw [hcheck]
  constructor
  · rintro ⟨visited, hvisited, rfl⟩
    rw [foldlM_eq_of_visitsAll (follow_eq_of_visits (.start structs)) hvisited]
  · rintro rfl
    exact ⟨_, visitsAll_foldlM (visits_follow (.start structs)) structs.keys [], rfl⟩

end

end Rust

namespace Program

variable {trees : List Module} {prelude : Option Module} {program : Program}

theorem complete_structs (hprogram : ofModules trees prelude = .ok program) :
    Rust.Complete program.registry.structs := by
  obtain ⟨_, ⟨signatures, htables⟩, _⟩ := spec_of_ofModules hprogram
  exact Graph.complete_of_structs htables.types htables.structs

/-- The search for recursive structs is exact. It ends, in one way only; it fails just if a struct contains itself,
    directly or through others; and it then reports a struct, those on a way from it back to it, each of which
    contains the next, and the place of that struct. -/
theorem recursiveStructs_exact (hprogram : ofModules trees prelude = .ok program) :
    (∀ outcome, Rust.Searches program.registry.structs outcome ↔
      outcome = Rust.checkContainment program.registry.structs) ∧
      ((∃ failure, Rust.checkContainment program.registry.structs = .error failure) ↔
        ∃ name, Relation.TransGen (Rust.Contains program.registry.structs) name name) ∧
      ∀ failure, Rust.checkContainment program.registry.structs = .error failure →
        ∃ name between info, program.registry.structs.find? name = some info ∧
          (name :: (between ++ [name])).IsChain (Rust.Contains program.registry.structs) ∧
          failure = .diagnostic
            { cause := .cannotLower Rust.backendName (.recursiveStruct (name :: (between ++ [name])))
                (some "a struct cannot contain itself by value")
              location := some info.loc } := by
  have hcomplete : Rust.Complete program.registry.structs := complete_structs hprogram
  have hexact := Rust.exists_checkContainment_iff hcomplete
  rw [Rust.contains_eq_holds]
  refine ⟨fun _ => Rust.searches_iff, ?_, Rust.failsOnly_checkContainment hcomplete⟩
  constructor
  · rintro ⟨failure, hfailure⟩
    by_contra hacyclic
    obtain ⟨u, hu⟩ := hexact.2 (not_exists.1 hacyclic)
    cases hfailure.symm.trans hu
  · rintro ⟨name, hcycle⟩
    cases hcontainment : Rust.checkContainment program.registry.structs with
    | ok u => exact absurd hcycle (hexact.1 ⟨u, hcontainment⟩ name)
    | error failure => exact ⟨failure, rfl⟩

/-- Structs that hold each other, through an array and an opaque type. -/
theorem recursiveStructs_mutual :
    ∃ tree program,
      Module.ofSource "m" "mod m; opaque Box(type T); struct A {b: [B; 2]} struct B {x: int, a: Box(type A)}" =
        .ok tree ∧
      ofModules [tree] none = .ok program ∧
      ∃ name between, (name :: (between ++ [name])).IsChain (Rust.Contains program.registry.structs) ∧
        ∃ hint loc, Rust.checkContainment program.registry.structs = .error (.diagnostic
          { cause := .cannotLower Rust.backendName (.recursiveStruct (name :: (between ++ [name]))) hint, location :=
            loc }) := by
  simp only [exists_and_left]
  refine exists_ok₂ (p := fun _ program => !(Rust.checkContainment program.registry.structs).toBool) (by decide +kernel)
    fun tree program htree hprogram hfails => ?_
  obtain ⟨_, _, hreports⟩ := recursiveStructs_exact hprogram
  cases hcontainment : Rust.checkContainment program.registry.structs with
  | ok u => simp [hcontainment, Except.toBool] at hfails
  | error failure =>
    obtain ⟨name, between, _, _, hchain, rfl⟩ := hreports failure hcontainment
    exact ⟨name, between, hchain, _, _, rfl⟩

end Program

end Smpl
