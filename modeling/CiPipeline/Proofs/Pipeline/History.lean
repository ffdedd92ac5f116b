import CiPipeline.Proofs.Pipeline.Chain
import CiPipeline.Proofs.Pipeline.Interleaving
import CiPipeline.Proofs.Pipeline.Session
import Mathlib.Data.List.Induction

/-!
# The history of dependencies

Calls ask steps to depend on names: a setting asks the step that it is made on, a chain asks every
step of a stage. Main statement: after any calls the dependencies of a step are the names that it
was asked to depend on, each where it first came and without the empty one; and a chain changes
nothing but dependencies.
-/

namespace CiPipeline

/-! ## Demands -/

/-- The name of a step, and a name on which it is asked to depend. -/
structure Demand where
  step : String
  dependency : String
deriving DecidableEq

namespace Demand

/-- Demands on one step, one after the other. -/
def onStep (step : String) (dependencies : List String) : List Demand :=
  dependencies.map fun dependency => ⟨step, dependency⟩

/-- Of all demands, the names on which the one step is asked to depend. -/
def asked (demands : List Demand) (step : String) : List String :=
  (demands.filter fun demand => demand.step = step).map Demand.dependency

/-- Every name of a stage is asked to depend on all names of the stage before. -/
def ofStages (stages : List (List String)) : List Demand :=
  (stages.zip stages.tail).flatMap fun (earlier, later) =>
    later.flatMap fun name => onStep name earlier

@[simp] theorem asked_nil (step : String) : asked [] step = [] := rfl

@[simp] theorem asked_append (demands more : List Demand) (step : String) :
    asked (demands ++ more) step = asked demands step ++ asked more step := by
  simp [asked]

theorem asked_onStep (name step : String) (dependencies : List String) :
    asked (onStep name dependencies) step = if name = step then dependencies else [] := by
  by_cases h : name = step
  · simp [asked, onStep, List.filter_map, Function.comp_def, h]
  · simp [asked, onStep, List.filter_map, Function.comp_def, h]

theorem asked_eq_nil {demands : List Demand} {step : String}
    (h : ∀ demand ∈ demands, demand.step ≠ step) : asked demands step = [] := by
  have hnone : demands.filter (fun demand => demand.step = step) = [] := by
    rw [List.filter_eq_nil_iff]
    simpa using h
  rw [asked, hnone, List.map_nil]

theorem asked_filter {keeps : String → Bool} {step : String} (h : keeps step = true)
    (demands : List Demand) :
    asked (demands.filter fun demand => keeps demand.step) step = asked demands step := by
  rw [asked, List.filter_filter, asked]
  congr 1
  apply List.filter_congr
  intro demand _
  by_cases hstep : demand.step = step
  · simp [hstep, h]
  · simp [hstep]

/-- Nothing is asked for where there is no stage before. -/
theorem ofStages_nil_cons (stages : List (List String)) :
    ofStages ([] :: stages) = ofStages stages := by
  cases stages with
  | nil => rfl
  | cons first rest => simp [ofStages, onStep]

end Demand

/-! ## Names as they first come -/

/-- The names but the empty one, each where it first comes. -/
def firstNames (names : List String) : List String := (names.filter (· ≠ "")).eraseDups

theorem firstNames_concat (names : List String) (name : String) :
    firstNames (names ++ [name]) =
      if name = "" ∨ name ∈ firstNames names then firstNames names
      else firstNames names ++ [name] := by
  by_cases hempty : name = ""
  · simp [firstNames, hempty]
  · simp [firstNames, hempty, List.filter_append, eraseDups_concat]

theorem nodup_firstNames (names : List String) : (firstNames names).Nodup := by
  induction names using List.reverseRecOn with
  | nil => exact List.nodup_nil
  | append_singleton names name ih =>
      rw [firstNames_concat]
      split
      · exact ih
      · rename_i hnew
        rw [← List.concat_eq_append]
        exact ih.concat fun hmem => hnew (.inr hmem)

theorem empty_not_mem_firstNames (names : List String) : "" ∉ firstNames names := by
  simp [firstNames]

namespace Step

/-- More names are depended on as if they had been asked for with the others. -/
theorem dependencies_addDependencies {step : Step} {asked : List String}
    (h : step.dependencies = firstNames asked) (names : List String) :
    (step.addDependencies names).dependencies = firstNames (asked ++ names) := by
  induction names generalizing step asked with
  | nil => simpa [addDependencies] using h
  | cons name names ih =>
      have hname : (step.addDependency name).dependencies = firstNames (asked ++ [name]) := by
        rw [firstNames_concat, addDependency, h]
        by_cases hempty : name = ""
        · simp [hempty, h]
        · by_cases hknown : name ∈ firstNames asked
          · simp [hknown, h]
          · simp [hempty, hknown]
      have hrest := ih hname
      rwa [List.append_assoc] at hrest

theorem addDependencies_append (step : Step) (names more : List String) :
    (step.addDependencies names).addDependencies more = step.addDependencies (names ++ more) :=
  List.foldl_append.symm

/-- The step with all that it depends on left out. -/
def withoutDependencies (step : Step) : Step := { step with dependencies := [] }

theorem withoutDependencies_addDependencies (step : Step) (names : List String) :
    (step.addDependencies names).withoutDependencies = step.withoutDependencies := by
  induction names generalizing step with
  | nil => rfl
  | cons name names ih =>
      have hname : (step.addDependency name).withoutDependencies = step.withoutDependencies := by
        rw [addDependency]
        split <;> rfl
      exact (ih (step.addDependency name)).trans hname

end Step

/-! ## Chains -/

namespace Pipeline

/-- The pipeline in which every step has been made to depend on what it is asked to depend on. -/
def meet (pipeline : Pipeline) (demands : List Demand) : Pipeline :=
  { pipeline with
    steps := pipeline.steps.map fun step => step.addDependencies (Demand.asked demands step.name) }

/-- The pipeline with all dependencies left out. -/
def withoutDependencies (pipeline : Pipeline) : Pipeline :=
  { pipeline with steps := pipeline.steps.map Step.withoutDependencies }

theorem withoutDependencies_meet (pipeline : Pipeline) (demands : List Demand) :
    (pipeline.meet demands).withoutDependencies = pipeline.withoutDependencies := by
  simp [withoutDependencies, meet, Step.withoutDependencies_addDependencies]

theorem names_meet (pipeline : Pipeline) (demands : List Demand) :
    (pipeline.meet demands).names = pipeline.names := by
  simp [names, meet]

theorem meet_append (pipeline : Pipeline) (demands more : List Demand) :
    (pipeline.meet demands).meet more = pipeline.meet (demands ++ more) := by
  simp [meet, Step.addDependencies_append]

theorem meet_congr {pipeline : Pipeline} {demands others : List Demand}
    (h : ∀ name ∈ pipeline.names, Demand.asked demands name = Demand.asked others name) :
    pipeline.meet demands = pipeline.meet others := by
  have hsteps : ∀ step ∈ pipeline.steps,
      step.addDependencies (Demand.asked demands step.name) =
        step.addDependencies (Demand.asked others step.name) := by
    intro step hstep
    rw [h step.name (List.mem_map_of_mem hstep)]
  rw [meet, meet, List.map_congr_left hsteps]

theorem meet_nil (pipeline : Pipeline) : pipeline.meet [] = pipeline := by
  simp [meet, Step.addDependencies]

/-- To require a step is to meet demands on this step alone. -/
theorem require_eq_meet {pipeline : Pipeline} (h : pipeline.Indexed) (dependencies : List String)
    (name : String) :
    pipeline.require dependencies name = pipeline.meet (Demand.onStep name dependencies) := by
  rw [require]
  cases hplace : pipeline.index? name with
  | none =>
      have hunknown : name ∉ pipeline.names := h.numbers.get?_eq_none_iff.mp hplace
      have hnothing : ∀ other ∈ pipeline.names,
          Demand.asked (Demand.onStep name dependencies) other = Demand.asked [] other := by
        intro other hother
        rw [Demand.asked_onStep, if_neg, Demand.asked_nil]
        rintro rfl
        exact hunknown hother
      rw [meet_congr hnothing, meet_nil]
  | some place =>
      have hname : pipeline.names[place]? = some name := h.numbers.get?_eq_some_iff.mp hplace
      dsimp only [meet]
      congr 1
      apply List.ext_getElem?
      intro other
      rw [List.getElem?_modify, List.getElem?_map]
      cases hstep : pipeline.steps[other]? with
      | none => rfl
      | some step =>
          have hother : pipeline.names[other]? = some step.name :=
            getElem?_names_eq_some_iff.mpr ⟨step, hstep, rfl⟩
          have hsame : place = other ↔ name = step.name := by
            constructor
            · rintro rfl
              rw [hname, Option.some_inj] at hother
              exact hother
            · rintro rfl
              exact h.numbers.place_eq hname hother
          simp only [Option.map_some, Demand.asked_onStep, hsame]
          split <;> rfl

theorem foldl_require_eq_meet {pipeline : Pipeline} (h : pipeline.Indexed)
    (dependencies required : List String) :
    required.foldl (·.require dependencies) pipeline =
      pipeline.meet (required.flatMap fun name => Demand.onStep name dependencies) := by
  induction required generalizing pipeline with
  | nil => exact pipeline.meet_nil.symm
  | cons name required ih =>
      obtain ⟨hnames, hplaces⟩ := names_require pipeline dependencies name
      rw [List.foldl_cons, ih (h.of_same hnames hplaces), require_eq_meet h, meet_append,
        List.flatMap_cons]

/-- A chain meets what its stages ask for, and does nothing else. -/
theorem link_eq_meet {pipeline : Pipeline} (h : pipeline.Indexed) (previous : List String)
    (stages : List (List String)) :
    (link previous stages pipeline).2 = pipeline.meet (Demand.ofStages (previous :: stages)) := by
  induction stages generalizing previous pipeline with
  | nil => exact pipeline.meet_nil.symm
  | cons current stages ih =>
      obtain ⟨hnames, hplaces⟩ := names_foldl_require pipeline previous current
      rw [link, ih (h.of_same hnames hplaces), foldl_require_eq_meet h, meet_append]
      rfl

theorem chain_eq_meet {pipeline : Pipeline} (h : pipeline.Indexed) (stages : List Stage) :
    ((chain stages).perform pipeline).2 =
      pipeline.meet (Demand.ofStages (stages.map Stage.tasks)) := by
  rw [perform_chain, link_eq_meet h, Demand.ofStages_nil_cons]

end Pipeline

/-! ## Settings -/

/-- A setting that asks for dependencies has nothing to be refused for. -/
theorem TaskSetting.requests_of_refused {templates : OrderedMap Template} {step : Step}
    {task : Task} {setting : TaskSetting} {refusal : Refusal}
    (h : setting.apply templates step task = .error refusal) : setting.requests = [] := by
  cases setting with
  | after | afterGroups | inputFrom => cases h
  | _ => rfl

theorem GateSetting.requests_of_refused {step : Step} {gate : Gate} {setting : GateSetting}
    {refusal : Refusal} (h : setting.apply step gate = .error refusal) :
    setting.requests = [] := by
  cases setting with
  | after | afterGroups => cases h
  | _ => rfl

namespace StepSetting

/-- The names on which a setting asks a step to depend. -/
def requests : StepSetting → List String
  | .ofTask setting => setting.requests
  | .ofGate setting => setting.requests

/-- Whether the setting is one for the kind of the step. -/
def fits (step : Step) : StepSetting → Bool
  | .ofTask _ => step.task?.isSome
  | .ofGate _ => step.gate?.isSome

/-- What is set on a step of its kind asks for the same dependencies whatever the step is, and is
not refused if it asks for any. -/
theorem attempt?_cases (templates : OrderedMap Template) (step : Step) (setting : StepSetting) :
    (setting.fits step = false ∧ setting.attempt? templates step = none) ∨
      setting.fits step = true ∧
        ((∃ refusal, setting.attempt? templates step = some (.error refusal) ∧
            setting.requests = []) ∨
          ∃ next, setting.attempt? templates step = some (.ok next) ∧ next.name = step.name ∧
            next.dependencies = (step.addDependencies setting.requests).dependencies) := by
  cases setting with
  | ofTask setting =>
      cases htask : step.task? with
      | none => exact .inl ⟨by simp [fits, htask], by simp [attempt?, htask]⟩
      | some task =>
          refine .inr ⟨by simp [fits, htask], ?_⟩
          cases hset : setting.apply templates step task with
          | error refusal =>
              refine .inl ⟨refusal, by simp [attempt?, htask, hset], ?_⟩
              exact TaskSetting.requests_of_refused hset
          | ok next =>
              have happlied := TaskSetting.applied htask hset
              exact .inr ⟨next, by simp [attempt?, htask, hset], happlied.name_eq,
                happlied.dependencies_eq⟩
  | ofGate setting =>
      cases hgate : step.gate? with
      | none => exact .inl ⟨by simp [fits, hgate], by simp [attempt?, hgate]⟩
      | some gate =>
          refine .inr ⟨by simp [fits, hgate], ?_⟩
          cases hset : setting.apply step gate with
          | error refusal =>
              refine .inl ⟨refusal, by simp [attempt?, hgate, hset], ?_⟩
              exact GateSetting.requests_of_refused hset
          | ok next =>
              have happlied := GateSetting.applied hset
              exact .inr ⟨next, by simp [attempt?, hgate, hset], happlied.name_eq,
                happlied.dependencies_eq⟩

end StepSetting

/-! ## Histories -/

namespace Pipeline

/-- What a setting asks of the step at the place. Where there is no step of its kind it is passed
over. -/
def demandsAt (pipeline : Pipeline) (place : Nat) (setting : StepSetting) : List Demand :=
  match pipeline.steps[place]? with
  | some step => if setting.fits step then Demand.onStep step.name setting.requests else []
  | none => []

end Pipeline

/-- What a request asks of the steps that there are. -/
def Request.demands (pipeline : Pipeline) : Request → List Demand
  | .chain stages =>
      (Demand.ofStages (stages.map Stage.tasks)).filter fun demand => pipeline.contains demand.step
  | request =>
      match request.target? pipeline with
      | some (place, setting) => pipeline.demandsAt place setting
      | none => []

theorem Preset.requests_eq_nil (preset : Preset) {setting : TaskSetting}
    (h : setting ∈ preset.settings) : setting.requests = [] := by
  rcases Preset.eq_of_mem_settings h with rfl | rfl | ⟨paths, rfl⟩ <;> rfl

namespace Pipeline

/-- All that is asked of steps when the requests are served one after the other. -/
def demands (pipeline : Pipeline) : List Request → List Demand
  | [] => []
  | request :: rest =>
      request.demands pipeline ++ (request.answer.perform pipeline).2.demands rest

/-- Every step depends on what the history asks of it, and the history asks nothing of others. -/
structure Recorded (pipeline : Pipeline) (history : List Demand) : Prop where
  dependencies : ∀ step ∈ pipeline.steps,
    step.dependencies = firstNames (Demand.asked history step.name)
  registered : ∀ demand ∈ history, demand.step ∈ pipeline.names

variable {pipeline next : Pipeline} {history : List Demand}

theorem Recorded.of_steps (h : pipeline.Recorded history) (hsteps : next.steps = pipeline.steps) :
    next.Recorded history := by
  constructor
  · rw [hsteps]
    exact h.dependencies
  · rw [names, hsteps]
    exact h.registered

/-- What is made of the answer of a call does not matter, nor that it asks for nothing. -/
theorem Recorded.map {α β : Type} {call : Build α}
    (h : (call.perform pipeline).2.Recorded history) (give : α → β) :
    ((give <$> call).perform pipeline).2.Recorded (history ++ []) := by
  rwa [Build.perform_map, List.append_nil]

/-- Of a new step nothing has been asked yet. -/
theorem Recorded.withStep (h : pipeline.Recorded history) {step : Step}
    (hnew : step.name ∉ pipeline.names) (hnone : step.dependencies = []) :
    (pipeline.withStep step).Recorded history := by
  constructor
  · intro other hother
    rcases List.mem_append.mp hother with hold | hlast
    · exact h.dependencies other hold
    · have hnothing : Demand.asked history step.name = [] := by
        apply Demand.asked_eq_nil
        intro demand hdemand hsame
        exact hnew (hsame ▸ h.registered demand hdemand)
      rw [List.mem_singleton.mp hlast, hnothing, hnone]
      rfl
  · intro demand hdemand
    rw [names_withStep]
    exact List.mem_append_left _ (h.registered demand hdemand)

theorem Recorded.meet (h : pipeline.Recorded history) {demands : List Demand}
    (hregistered : ∀ demand ∈ demands, demand.step ∈ pipeline.names) :
    (pipeline.meet demands).Recorded (history ++ demands) := by
  constructor
  · intro other hother
    obtain ⟨step, hstep, rfl⟩ := List.mem_map.mp hother
    rw [Step.name_addDependencies, Demand.asked_append]
    exact Step.dependencies_addDependencies (h.dependencies step hstep) _
  · rw [names_meet, List.forall_mem_append]
    exact ⟨h.registered, hregistered⟩

/-- A step in its own place with more dependencies; no other step has its name. -/
theorem Recorded.putStep (h : pipeline.Recorded history) (hnodup : pipeline.names.Nodup)
    {place : Nat} {step set : Step} (hstep : pipeline.steps[place]? = some step)
    (hname : set.name = step.name) {requests : List String}
    (hset : set.dependencies = (step.addDependencies requests).dependencies) :
    (pipeline.putStep place set).Recorded (history ++ Demand.onStep step.name requests) := by
  have hplace : pipeline.names[place]? = some step.name :=
    getElem?_names_eq_some_iff.mpr ⟨step, hstep, rfl⟩
  constructor
  · intro other hother
    obtain ⟨i, hi⟩ := List.mem_iff_getElem?.mp hother
    rw [Pipeline.putStep, List.getElem?_set] at hi
    rw [Demand.asked_append, Demand.asked_onStep]
    by_cases hsame : place = i
    · rw [if_pos hsame] at hi
      obtain ⟨-, ⟨⟩⟩ := Option.ite_none_right_eq_some.mp hi
      rw [hname, if_pos rfl, hset]
      exact Step.dependencies_addDependencies
        (h.dependencies step (List.mem_of_getElem? hstep)) requests
    · rw [if_neg hsame] at hi
      have hi' : pipeline.names[i]? = some other.name :=
        getElem?_names_eq_some_iff.mpr ⟨other, hi, rfl⟩
      have hother : step.name ≠ other.name := by
        intro heq
        obtain ⟨hlt, -⟩ := List.getElem?_eq_some_iff.mp hplace
        exact hsame ((List.getElem?_inj hlt hnodup).mp (by rw [hplace, hi', heq]))
      rw [if_neg hother, List.append_nil]
      exact h.dependencies other (List.mem_of_getElem? hi)
  · rw [names_putStep hstep hname, List.forall_mem_append]
    refine ⟨h.registered, fun demand hdemand => ?_⟩
    obtain ⟨dependency, -, rfl⟩ := List.mem_map.mp hdemand
    exact List.mem_of_getElem? hplace

theorem Recorded.configure (h : pipeline.Recorded history) (hnodup : pipeline.names.Nodup)
    (place : Nat) (setting : StepSetting) :
    (pipeline.configure place setting).2.Recorded
      (history ++ pipeline.demandsAt place setting) := by
  rw [Pipeline.configure, attempt?, demandsAt]
  cases hstep : pipeline.steps[place]? with
  | none => simpa using h
  | some step =>
      dsimp only [Option.bind_some]
      rcases setting.attempt?_cases pipeline.templates step with
        ⟨hfits, hattempt⟩ | ⟨hfits, ⟨refusal, hattempt, hnone⟩ | ⟨set, hattempt, hname, hset⟩⟩
      · simpa [hattempt, hfits] using h
      · simpa [hattempt, hfits, hnone, Demand.onStep] using h
      · rw [hattempt, hfits, if_pos rfl]
        exact (h.putStep hnodup hstep hname hset).of_steps rfl

theorem Recorded.register (h : pipeline.Recorded history) (hindexed : pipeline.Indexed)
    (named : Named) {step : Step} (hnone : step.dependencies = []) :
    ((Pipeline.register named step).perform pipeline).2.Recorded history := by
  rw [Pipeline.register, Build.perform_bind, Build.perform_get]
  dsimp only
  by_cases hempty : step.name.isEmpty = true
  · rw [if_pos hempty]
    exact h
  · rw [if_neg hempty]
    by_cases hknown : pipeline.contains step.name = true
    · rw [if_pos hknown]
      exact h
    · rw [if_neg hknown]
      exact h.withStep (fun hmem => hknown (hindexed.contains_iff.mpr hmem)) hnone

/-! ### Calls that leave the steps alone -/

theorem perform_addTemplate (name : String) (pipeline : Pipeline) :
    ∃ templates, ((addTemplate name).perform pipeline).2 = { pipeline with templates } := by
  rw [addTemplate, Build.perform_bind, Build.perform_get]
  dsimp only
  split
  · exact ⟨_, rfl⟩
  · split
    · exact ⟨_, rfl⟩
    · exact ⟨_, rfl⟩

theorem perform_addDirectory (path : String) (globs : List String) (pipeline : Pipeline) :
    ∃ resources, ((addDirectory path globs).perform pipeline).2 =
      { pipeline with resources } := by
  rw [addDirectory, Build.perform_bind, Build.perform_ofExcept]
  cases Directory.ofPath path with
  | error refusal => exact ⟨_, rfl⟩
  | ok source => exact ⟨_, rfl⟩

theorem perform_addCache (name : String) (pipeline : Pipeline) :
    ∃ resources, ((addCache name).perform pipeline).2 = { pipeline with resources } := by
  rw [addCache, Build.perform_bind, Build.perform_ofExcept]
  cases Cache.ofName name with
  | error refusal => exact ⟨_, rfl⟩
  | ok store => exact ⟨_, rfl⟩

theorem steps_addTemplate (name : String) (pipeline : Pipeline) :
    ((addTemplate name).perform pipeline).2.steps = pipeline.steps := by
  obtain ⟨templates, hnext⟩ := perform_addTemplate name pipeline
  rw [hnext]

theorem steps_addDirectory (path : String) (globs : List String) (pipeline : Pipeline) :
    ((addDirectory path globs).perform pipeline).2.steps = pipeline.steps := by
  obtain ⟨resources, hnext⟩ := perform_addDirectory path globs pipeline
  rw [hnext]

theorem steps_addCache (name : String) (pipeline : Pipeline) :
    ((addCache name).perform pipeline).2.steps = pipeline.steps := by
  obtain ⟨resources, hnext⟩ := perform_addCache name pipeline
  rw [hnext]

theorem steps_setTemplate (name : String) (setting : TemplateSetting) (pipeline : Pipeline) :
    ((setTemplate name setting).perform pipeline).2.steps = pipeline.steps := by
  cases htemplate : pipeline.templates.get? name with
  | none => rw [perform_setTemplate_of_none htemplate]
  | some template =>
      rw [perform_setTemplate_of_some htemplate]
      cases setting.apply name template <;> rfl

/-! ### Runs -/

theorem Recorded.setUp (h : pipeline.Recorded history) (hnodup : pipeline.names.Nodup)
    {request : Request} {place : Nat} {setting : StepSetting}
    (htarget : request.target? pipeline = some (place, setting)) :
    (request.answer.perform pipeline).2.Recorded
      (history ++ pipeline.demandsAt place setting) := by
  rw [Request.perform_answer htarget]
  exact h.configure hnodup place setting

theorem perform_setTask_of_unknown {name : String} (h : pipeline.index? name = none)
    (setting : TaskSetting) : ((setTask name setting).perform pipeline).2 = pipeline := by
  have hplace : pipeline.taskPlace? name = none := by
    rw [taskPlace?, h]
    rfl
  rw [setTask, Build.perform_bind, Build.perform_get]
  dsimp only
  rw [hplace]
  rfl

theorem perform_setGate_of_unknown {name : String} (h : pipeline.index? name = none)
    (setting : GateSetting) : ((setGate name setting).perform pipeline).2 = pipeline := by
  have hplace : pipeline.gatePlace? name = none := by
    rw [gatePlace?, h]
    rfl
  rw [setGate, Build.perform_bind, Build.perform_get]
  dsimp only
  rw [hplace]
  rfl

theorem Recorded.setTask (h : pipeline.Recorded history) (hnodup : pipeline.names.Nodup)
    (name : String) (setting : TaskSetting) :
    ((Pipeline.setTask name setting).perform pipeline).2.Recorded
      (history ++ (Request.reopenTask name setting).demands pipeline) := by
  dsimp only [Request.demands, Request.target?]
  cases hindex : pipeline.index? name with
  | none =>
      rw [perform_setTask_of_unknown hindex]
      simpa using h
  | some place =>
      have hset := h.configure hnodup place (.ofTask setting)
      rwa [← perform_setTask hindex, Build.perform_map] at hset

theorem Recorded.setGate (h : pipeline.Recorded history) (hnodup : pipeline.names.Nodup)
    (name : String) (setting : GateSetting) :
    ((Pipeline.setGate name setting).perform pipeline).2.Recorded
      (history ++ (Request.reopenGate name setting).demands pipeline) := by
  dsimp only [Request.demands, Request.target?]
  cases hindex : pipeline.index? name with
  | none =>
      rw [perform_setGate_of_unknown hindex]
      simpa using h
  | some place =>
      have hset := h.configure hnodup place (.ofGate setting)
      rwa [← perform_setGate hindex, Build.perform_map] at hset

theorem demands_reopenTask {setting : TaskSetting} (h : setting.requests = []) (name : String) :
    (Request.reopenTask name setting).demands pipeline = [] := by
  dsimp only [Request.demands, Request.target?]
  cases pipeline.index? name with
  | none => rfl
  | some place =>
      dsimp only [Option.map_some, demandsAt]
      cases pipeline.steps[place]? with
      | none => rfl
      | some step => simp [StepSetting.requests, h, Demand.onStep]

/-- What is ready-made asks for no dependencies. -/
theorem Recorded.addPreset (h : pipeline.Recorded history) (hreachable : pipeline.Reachable)
    (preset : Preset) : ((Pipeline.addPreset preset).perform pipeline).2.Recorded history := by
  let holds (pipeline : Pipeline) : Prop := pipeline.Reachable ∧ pipeline.Recorded history
  have hadd : (addTask preset.taskName).Keeps holds := by
    intro pipeline hbefore
    refine ⟨Build.keeps_call outlastsCalls_reachable (.addTask _) pipeline hbefore.1, ?_⟩
    rw [addTask, Build.perform_discard]
    exact hbefore.2.register hbefore.1.indexed .task rfl
  have hset : ∀ setting ∈ preset.settings,
      (Pipeline.setTask preset.taskName setting).Keeps holds := by
    intro setting hsetting pipeline hbefore
    refine ⟨keeps_setTask outlastsCalls_reachable _ setting pipeline hbefore.1, ?_⟩
    have hnext := hbefore.2.setTask hbefore.1.indexed.nodup preset.taskName setting
    rwa [demands_reopenTask (preset.requests_eq_nil hsetting), List.append_nil] at hnext
  have hkeeps : (Pipeline.addPreset preset).Keeps holds := keeps_addPreset_of_parts hadd hset
  exact (hkeeps pipeline ⟨hreachable, h⟩).2

/-- Whatever is requested, the history goes on with what the request asks. -/
theorem Recorded.answer (h : pipeline.Recorded history) (hreachable : pipeline.Reachable)
    (request : Request) :
    (request.answer.perform pipeline).2.Recorded (history ++ request.demands pipeline) := by
  have hindexed := hreachable.indexed
  cases request with
  | addTask name => exact (h.register hindexed .task rfl).map _
  | addGate name => exact (h.register hindexed .gate rfl).map _
  | addTemplate name => exact (h.of_steps (steps_addTemplate name pipeline)).map _
  | addDirectory path globs => exact (h.of_steps (steps_addDirectory path globs pipeline)).map _
  | addCache name => exact (h.of_steps (steps_addCache name pipeline)).map _
  | addPreset preset => exact (h.addPreset hreachable preset).map _
  | setTask place setting => exact h.setUp hindexed.nodup rfl
  | setGate place setting => exact h.setUp hindexed.nodup rfl
  | setTemplate name setting => exact (h.of_steps (steps_setTemplate name setting pipeline)).map _
  | reopenTask name setting =>
      rw [Request.answer, Build.perform_map]
      exact h.setTask hindexed.nodup name setting
  | reopenGate name setting =>
      rw [Request.answer, Build.perform_map]
      exact h.setGate hindexed.nodup name setting
  | chain stages =>
      have hknown : ∀ name ∈ pipeline.names,
          Demand.asked (Demand.ofStages (stages.map Stage.tasks)) name =
            Demand.asked ((Request.chain stages).demands pipeline) name := by
        intro name hname
        exact (Demand.asked_filter (hindexed.contains_iff.mpr hname) _).symm
      rw [Request.answer, Build.perform_map, chain_eq_meet hindexed, meet_congr hknown]
      apply h.meet
      intro demand hdemand
      exact hindexed.contains_iff.mp (List.mem_filter.mp hdemand).2

theorem Reachable.answer (h : pipeline.Reachable) (request : Request) :
    (request.answer.perform pipeline).2.Reachable :=
  request.keeps_answer outlastsCalls_reachable pipeline h

theorem Reachable.serve (h : pipeline.Reachable) (requests : List Request) :
    (pipeline.serve requests).2.Reachable := by
  induction requests generalizing pipeline with
  | nil => exact h
  | cons request rest ih => exact ih (h.answer request)

theorem Recorded.serve (h : pipeline.Recorded history) (hreachable : pipeline.Reachable)
    (requests : List Request) :
    (pipeline.serve requests).2.Recorded (history ++ pipeline.demands requests) := by
  induction requests generalizing pipeline history with
  | nil => simpa [Pipeline.serve, Pipeline.demands] using h
  | cons request rest ih =>
      have hnext := ih (h.answer hreachable request) (hreachable.answer request)
      rw [Pipeline.demands, ← List.append_assoc]
      exact hnext

theorem recorded_withDefaults (defaults : Option KubernetesOptions) :
    (withDefaults defaults).Recorded [] where
  dependencies _ hstep := absurd hstep List.not_mem_nil
  registered _ hdemand := absurd hdemand List.not_mem_nil

end Pipeline

end CiPipeline
