import CiPipeline.Proofs.OrderedMap
import CiPipeline.Proofs.Pipeline.Call
import CiPipeline.Proofs.Pipeline.Setting

/-!
# The names of a pipeline

In a reachable pipeline the map of places and the list of steps agree: each name stands at its
place, and no name is empty or used twice. Only the registration of a step changes the names.
-/

namespace CiPipeline.Pipeline

/-! ## Changes that keep the names -/

/-- A step that is put in the place of one of its name leaves all names where they were. -/
theorem names_putStep {pipeline : Pipeline} {place : Nat} {step next : Step}
    (hstep : pipeline.steps[place]? = some step) (hname : next.name = step.name) :
    (pipeline.putStep place next).names = pipeline.names := by
  obtain ⟨hlt, hget⟩ := List.getElem?_eq_some_iff.mp hstep
  rw [names, putStep, List.map_set, hname, ← hget]
  rw [names]
  apply List.ext_getElem?
  intro i
  rw [List.getElem?_set]
  split
  · subst i
    simp [hlt]
  · rfl

theorem names_putStep_addDependencies {pipeline : Pipeline} {names : List String}
    {places : OrderedMap Nat} {place : Nat} {step : Step} (dependencies : List String)
    (h : pipeline.names = names ∧ pipeline.places = places)
    (hstep : pipeline.steps[place]? = some step) :
    (pipeline.putStep place (step.addDependencies dependencies)).names = names ∧
      (pipeline.putStep place (step.addDependencies dependencies)).places = places :=
  ⟨(names_putStep hstep (Step.name_addDependencies step dependencies)).trans h.1, h.2⟩

theorem names_foldl_require (pipeline : Pipeline) (dependencies required : List String) :
    (required.foldl (·.require dependencies) pipeline).names = pipeline.names ∧
      (required.foldl (·.require dependencies) pipeline).places = pipeline.places :=
  holds_foldl_require names_putStep_addDependencies dependencies required ⟨rfl, rfl⟩

theorem names_link (pipeline : Pipeline) (previous : List String) (stages : List (List String)) :
    (link previous stages pipeline).2.names = pipeline.names ∧
      (link previous stages pipeline).2.places = pipeline.places :=
  holds_link names_putStep_addDependencies previous stages ⟨rfl, rfl⟩

/-- What is known of the names after a change, given what was known before. -/
theorem Change.names {pipeline next : Pipeline} (h : pipeline.Change next) :
    (next.names = pipeline.names ∧ next.places = pipeline.places) ∨
      ∃ step : Step, step.name ≠ "" ∧ pipeline.contains step.name = false ∧
        next = pipeline.withStep step := by
  cases h with
  | none | template | directory | cache | setTemplate => exact .inl ⟨rfl, rfl⟩
  | step hname hfree _ => exact .inr ⟨_, hname, hfree, rfl⟩
  | setTask setting hstep htask hset =>
      have happlied := TaskSetting.applied htask hset
      exact .inl ⟨names_putStep hstep happlied.name_eq, rfl⟩
  | setGate setting hstep hgate hset =>
      have happlied := GateSetting.applied hset
      exact .inl ⟨names_putStep hstep happlied.name_eq, rfl⟩
  | chain stages => exact .inl (names_link pipeline [] _)

@[simp] theorem names_withStep (pipeline : Pipeline) (step : Step) :
    (pipeline.withStep step).names = pipeline.names ++ [step.name] := by
  simp [names, withStep]

/-- Names are only ever added, behind those that are there. -/
theorem Change.names_grow {pipeline next : Pipeline} (h : pipeline.Change next) :
    pipeline.names <+: next.names := by
  rcases h.names with ⟨hnames, -⟩ | ⟨step, -, -, rfl⟩
  · simp [hnames]
  · rw [names_withStep]
    exact List.prefix_append _ _

/-! ## Names and places -/

theorem getElem?_names_eq_some_iff {pipeline : Pipeline} {name : String} {place : Nat} :
    pipeline.names[place]? = some name ↔
      ∃ step : Step, pipeline.steps[place]? = some step ∧ step.name = name := by
  rw [names, List.getElem?_map, Option.map_eq_some_iff]

/-- The map of places gives each name its place, and no name is empty. -/
structure Indexed (pipeline : Pipeline) : Prop where
  numbers : pipeline.places.Numbers pipeline.names
  not_empty : "" ∉ pipeline.names

theorem Indexed.of_same {pipeline next : Pipeline} (h : pipeline.Indexed)
    (hnames : next.names = pipeline.names) (hplaces : next.places = pipeline.places) :
    next.Indexed := by
  constructor
  · rw [hnames, hplaces]
    exact h.numbers
  · rw [hnames]
    exact h.not_empty

theorem Indexed.withStep {pipeline : Pipeline} (h : pipeline.Indexed) {step : Step}
    (hname : step.name ≠ "") (hfree : pipeline.contains step.name = false) :
    (pipeline.withStep step).Indexed := by
  have hnew : step.name ∉ pipeline.names := by
    intro hmem
    have hknown : pipeline.contains step.name = true := h.numbers.contains_iff.mpr hmem
    rw [hfree] at hknown
    cases hknown
  have hlength : pipeline.names.length = pipeline.steps.length := List.length_map _
  constructor
  · rw [names_withStep, Pipeline.withStep, ← hlength]
    exact h.numbers.insert hnew
  · rw [names_withStep, List.mem_append, List.mem_singleton]
    rintro (hmem | hempty)
    · exact h.not_empty hmem
    · exact hname hempty.symm

/-- In a reachable pipeline the list of steps and the map of places agree. -/
theorem Reachable.indexed {pipeline : Pipeline} (h : pipeline.Reachable) : pipeline.Indexed := by
  refine h.invariant (fun defaults => ⟨rfl, by simp [names, withDefaults, empty]⟩) ?_
  intro pipeline next hindexed hchange
  rcases hchange.names with ⟨hnames, hplaces⟩ | ⟨step, hname, hfree, rfl⟩
  · exact hindexed.of_same hnames hplaces
  · exact hindexed.withStep hname hfree

theorem Indexed.nodup {pipeline : Pipeline} (h : pipeline.Indexed) : pipeline.names.Nodup :=
  h.numbers.nodup

theorem Indexed.contains_iff {pipeline : Pipeline} (h : pipeline.Indexed) {name : String} :
    pipeline.contains name = true ↔ name ∈ pipeline.names :=
  h.numbers.contains_iff

end CiPipeline.Pipeline
