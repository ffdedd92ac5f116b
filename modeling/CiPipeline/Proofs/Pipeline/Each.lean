import CiPipeline.Proofs.OrderedMap
import CiPipeline.Proofs.Pipeline.Call
import CiPipeline.Proofs.Pipeline.Setting

/-!
# Properties of steps and templates

What holds of steps and templates one by one, with no regard to what else is in the pipeline. Such
a property holds throughout a reachable pipeline if new steps and templates have it and settings
keep it. In this way a gate has no settings of a task, though it could be stored with some.
-/

namespace CiPipeline

namespace Pipeline

variable {onStep : Step → Prop} {onTemplate : Template → Prop} {pipeline : Pipeline}

/-- Every step has the one property, and every template the other one. -/
structure Each (onStep : Step → Prop) (onTemplate : Template → Prop) (pipeline : Pipeline) :
    Prop where
  steps : ∀ step ∈ pipeline.steps, onStep step
  templates : ∀ name template, pipeline.templates.get? name = some template → onTemplate template

/-- New steps and templates have the properties, and what is set or required keeps them. -/
structure Kept (onStep : Step → Prop) (onTemplate : Template → Prop) : Prop where
  newTask (name : String) : onStep (.newTask name)
  newGate (name : String) : onStep (.newGate name)
  unset : onTemplate .unset
  setTask {templates : OrderedMap Template} {step next : Step} {task : Task}
    {setting : TaskSetting} :
    onStep step → (∀ name template, templates.get? name = some template → onTemplate template) →
      step.task? = some task → setting.apply templates step task = .ok next → onStep next
  setGate {step next : Step} {gate : Gate} {setting : GateSetting} :
    onStep step → step.gate? = some gate → setting.apply step gate = .ok next → onStep next
  setTemplate {name : String} {template next : Template} {setting : TemplateSetting} :
    onTemplate template → setting.apply name template = .ok next → onTemplate next
  addDependencies {step : Step} (names : List String) :
    onStep step → onStep (step.addDependencies names)

theorem Each.putStep (h : pipeline.Each onStep onTemplate) (place : Nat) {step : Step}
    (hstep : onStep step) : (pipeline.putStep place step).Each onStep onTemplate where
  steps other hother := by
    rcases List.mem_or_eq_of_mem_set hother with hold | rfl
    · exact h.steps other hold
    · exact hstep
  templates := h.templates

theorem Each.withStep (h : pipeline.Each onStep onTemplate) {step : Step} (hstep : onStep step) :
    (pipeline.withStep step).Each onStep onTemplate where
  steps other hother := by
    rcases List.mem_append.mp hother with hold | hnew
    · exact h.steps other hold
    · rwa [List.mem_singleton.mp hnew]
  templates := h.templates

theorem Each.putTemplate (h : pipeline.Each onStep onTemplate) (name : String)
    {template : Template} (htemplate : onTemplate template) :
    Each onStep onTemplate
      { pipeline with templates := pipeline.templates.insert name template } where
  steps := h.steps
  templates other found hfound := by
    rw [OrderedMap.get?_insert] at hfound
    by_cases hname : other = name
    · rw [if_pos hname] at hfound
      cases hfound
      exact htemplate
    · rw [if_neg hname] at hfound
      exact h.templates other found hfound

theorem Each.register (h : pipeline.Each onStep onTemplate) (resources : Registry) :
    Each onStep onTemplate { pipeline with resources } :=
  ⟨h.steps, h.templates⟩

theorem Each.change (hkept : Kept onStep onTemplate) {next : Pipeline}
    (h : pipeline.Each onStep onTemplate) (hchange : pipeline.Change next) :
    next.Each onStep onTemplate := by
  cases hchange with
  | none => exact h
  | @step step _ _ hnew =>
      refine h.withStep ?_
      rcases hnew with hnew | hnew
      · rw [hnew]
        exact hkept.newTask step.name
      · rw [hnew]
        exact hkept.newGate step.name
  | template => exact h.putTemplate _ hkept.unset
  | directory | cache => exact h.register _
  | setTask setting hstep htask hset =>
      have hnext := hkept.setTask (h.steps _ (List.mem_of_getElem? hstep)) h.templates htask hset
      exact (h.putStep _ hnext).register _
  | setGate setting hstep hgate hset =>
      exact h.putStep _ (hkept.setGate (h.steps _ (List.mem_of_getElem? hstep)) hgate hset)
  | setTemplate setting htemplate hset =>
      have hnext := hkept.setTemplate (h.templates _ _ htemplate) hset
      exact (h.putTemplate _ hnext).register _
  | chain stages =>
      refine holds_link (fun names h hstep => ?_) [] _ h
      exact h.putStep _ (hkept.addDependencies names (h.steps _ (List.mem_of_getElem? hstep)))

theorem Reachable.each (h : pipeline.Reachable) (hkept : Kept onStep onTemplate) :
    pipeline.Each onStep onTemplate :=
  h.invariant (fun defaults => ⟨by simp [withDefaults, empty], by simp [withDefaults, empty]⟩)
    (Each.change hkept)

end Pipeline

/-! ## Tasks and gates apart -/

/-- Of a gate no settings of a task are kept. -/
def Step.Exclusive (step : Step) : Prop := ∀ gate, step.gate? = some gate → step.settings = .unset

theorem Step.Exclusive.settings_eq {step : Step} (h : step.Exclusive) :
    step.settings = step.task?.getD .unset := by
  rw [task?, isGate]
  cases hgate : step.gate? with
  | none => rfl
  | some gate => exact h gate hgate

namespace Pipeline

variable {pipeline : Pipeline}

/-- A setting of a task is made on tasks only, and one of a gate leaves the settings of a task. -/
theorem kept_exclusive : Kept Step.Exclusive fun _ => True where
  newTask _ gate hgate := by cases hgate
  newGate _ _ _ := rfl
  unset := trivial
  setTask _ _ htask h gate hgate := by
    have happlied := TaskSetting.applied htask h
    obtain ⟨hnone, -⟩ := Step.task?_eq_some_iff.mp happlied.task_eq
    cases hnone.symm.trans hgate
  setGate hexclusive hgate h _ _ := (GateSetting.applied h).settings_eq.trans (hexclusive _ hgate)
  setTemplate _ _ := trivial
  addDependencies names hexclusive gate hgate := by
    rw [Step.gate?_addDependencies] at hgate
    rw [Step.settings_addDependencies, hexclusive gate hgate]

theorem Reachable.exclusive (h : pipeline.Reachable) {step : Step} (hstep : step ∈ pipeline.steps) :
    step.Exclusive :=
  (h.each kept_exclusive).steps step hstep

end Pipeline

end CiPipeline
