import CiPipeline.Proofs.Pipeline.History

/-!
# The settings of a task

A task that is registered has nothing set. What it has set later is the work of the settings that
were accepted at its place, apart from the command, the inputs and the outputs of ready-made tasks.
Main statement: after a request the task at a place reads as before, or as with one more setting.
-/

namespace CiPipeline

def StepSetting.task? : StepSetting → Option TaskSetting
  | .ofTask setting => some setting
  | .ofGate _ => none

namespace Pipeline

variable {pipeline next : Pipeline} {place : Nat}

/-- The settings of the task at the place. Where there is no step nothing is set. -/
def taskAt (pipeline : Pipeline) (place : Nat) : Task :=
  ((pipeline.steps[place]?).map Step.settings).getD .unset

theorem taskAt_of_steps (h : next.steps = pipeline.steps) :
    next.taskAt place = pipeline.taskAt place := by
  rw [taskAt, h, taskAt]

theorem taskAt_of_step {step : Step} (h : pipeline.steps[place]? = some step) :
    pipeline.taskAt place = step.settings := by
  rw [taskAt, h, Option.map_some, Option.getD_some]

theorem taskAt_withStep {step : Step} (h : step.settings = .unset) :
    (pipeline.withStep step).taskAt place = pipeline.taskAt place := by
  rw [taskAt, taskAt, withStep, List.getElem?_append]
  split
  · rfl
  · rename_i hbehind
    rw [List.getElem?_eq_none (Nat.le_of_not_lt hbehind)]
    cases place - pipeline.steps.length with
    | zero => exact h
    | succ _ => rfl

theorem taskAt_putStep {target : Nat} {step : Step} (h : pipeline.steps[target]? = some step)
    (set : Step) :
    (pipeline.putStep target set).taskAt place =
      if target = place then set.settings else pipeline.taskAt place := by
  obtain ⟨hlt, -⟩ := List.getElem?_eq_some_iff.mp h
  rw [taskAt, putStep, List.getElem?_set]
  by_cases hplace : target = place
  · subst hplace
    simp [hlt]
  · simp [hplace, taskAt]

theorem taskAt_putStep_same {target : Nat} {step set : Step}
    (h : pipeline.steps[target]? = some step) (hset : set.settings = step.settings) :
    (pipeline.putStep target set).taskAt place = pipeline.taskAt place := by
  rw [taskAt_putStep h]
  split
  · rename_i hplace
    rw [hset, ← hplace, taskAt_of_step h]
  · rfl

/-! ## Settings at a place -/

/-- The setting, if the step at the place is a task that accepts it. -/
def accepted? (pipeline : Pipeline) (place : Nat) (setting : StepSetting) : Option TaskSetting :=
  match pipeline.attempt? place setting with
  | some (.ok _) => setting.task?
  | _ => none

/-- The task at the place, with a setting if one was accepted. -/
def taskWith (pipeline : Pipeline) (place : Nat) (setting? : Option TaskSetting) : Task :=
  setting?.elim (pipeline.taskAt place) fun setting =>
    setting.change pipeline.templates (pipeline.taskAt place)

theorem taskAt_configure (pipeline : Pipeline) (target place : Nat) (setting : StepSetting) :
    (pipeline.configure target setting).2.taskAt place =
      pipeline.taskWith place
        (if target = place then pipeline.accepted? target setting else none) := by
  rw [configure, accepted?]
  rcases hattempt : pipeline.attempt? target setting with _ | refusal | set
  · rw [ite_self]
    rfl
  · rw [ite_self]
    rfl
  · obtain ⟨step, hstep, hset⟩ := Option.bind_eq_some_iff.mp hattempt
    change (pipeline.putStep target set).taskAt place = _
    cases setting with
    | ofTask setting =>
        obtain ⟨task, htask, happly⟩ := Option.map_eq_some_iff.mp hset
        obtain ⟨-, rfl⟩ := Step.task?_eq_some_iff.mp htask
        have happlied := TaskSetting.applied htask happly
        obtain ⟨-, hsettings⟩ := Step.task?_eq_some_iff.mp happlied.task_eq
        rw [taskAt_putStep hstep, hsettings]
        by_cases hplace : target = place
        · subst hplace
          simp [taskWith, taskAt_of_step hstep, StepSetting.task?]
        · simp [taskWith, hplace]
    | ofGate setting =>
        obtain ⟨gate, hgate, happly⟩ := Option.map_eq_some_iff.mp hset
        have hsame : set.settings = step.settings := (GateSetting.applied happly).settings_eq
        simp [taskAt_putStep_same hstep hsame, taskWith, StepSetting.task?]

end Pipeline

/-! ## Readings -/

/-- What is read of a task does not hang on the settings of ready-made tasks. -/
def Unprepared {α : Type} (read : Task → α) : Prop :=
  ∀ preset : Preset, ∀ setting ∈ preset.settings, ∀ templates task,
    read (setting.change templates task) = read task

namespace Pipeline

variable {α : Type} {pipeline : Pipeline} {read : Task → α}

theorem taskAt_register (named : Named) {step : Step} (h : step.settings = .unset)
    (pipeline : Pipeline) (place : Nat) :
    ((register named step).perform pipeline).2.taskAt place = pipeline.taskAt place := by
  rw [register, Build.perform_bind, Build.perform_get]
  dsimp only
  split
  · rfl
  · split
    · rfl
    · exact taskAt_withStep h

theorem read_setTask {setting : TaskSetting}
    (h : ∀ templates task, read (setting.change templates task) = read task) (name : String)
    (pipeline : Pipeline) (place : Nat) :
    read (((setTask name setting).perform pipeline).2.taskAt place) =
      read (pipeline.taskAt place) := by
  cases hindex : pipeline.index? name with
  | none => rw [perform_setTask_of_unknown hindex]
  | some target =>
      have hset := congrArg Prod.snd (perform_setTask hindex setting)
      rw [Build.perform_map] at hset
      rw [hset, taskAt_configure]
      split
      · rw [accepted?]
        split
        · exact h _ _
        · rfl
      · rfl

theorem read_addPreset (hread : Unprepared read) (preset : Preset) (pipeline : Pipeline)
    (place : Nat) :
    read (((addPreset preset).perform pipeline).2.taskAt place) =
      read (pipeline.taskAt place) := by
  refine addPreset_leaves (fun next => read (next.taskAt place)) (fun next => ?_)
    (fun setting hsetting next => ?_) pipeline
  · have hnew : (Step.newTask preset.taskName).settings = .unset := rfl
    rw [addTask, Build.perform_discard, taskAt_register .task hnew]
  · exact read_setTask (hread preset setting hsetting) _ next place

theorem taskAt_chain (stages : List Stage) (pipeline : Pipeline) (place : Nat) :
    ((chain stages).perform pipeline).2.taskAt place = pipeline.taskAt place :=
  chain_leaves (·.taskAt place)
    (fun hstep names => taskAt_putStep_same hstep (Step.settings_addDependencies _ names))
    stages pipeline

/-- What is made of the answer of a call does not matter. -/
theorem taskAt_map {β γ : Type} (give : β → γ) (call : Build β) (pipeline : Pipeline)
    (place : Nat) :
    ((give <$> call).perform pipeline).2.taskAt place =
      (call.perform pipeline).2.taskAt place := by
  rw [Build.perform_map]

end Pipeline

namespace Request

variable {α : Type} {pipeline : Pipeline} {read : Task → α}

/-- A request that sets up no step leaves the tasks as they are. -/
theorem read_answer_of_no_target (hread : Unprepared read) {request : Request}
    (h : request.target? pipeline = none) (place : Nat) :
    read ((request.answer.perform pipeline).2.taskAt place) = read (pipeline.taskAt place) := by
  cases request with
  | addTask name =>
      have hnew : (Step.newTask name).settings = .unset := rfl
      rw [answer, Pipeline.taskAt_map, Pipeline.taskAt_register .task hnew]
  | addGate name =>
      have hnew : (Step.newGate name).settings = .unset := rfl
      rw [answer, Pipeline.taskAt_map, Pipeline.taskAt_register .gate hnew]
  | addTemplate name =>
      have hsteps := Pipeline.steps_addTemplate name pipeline
      rw [answer, Pipeline.taskAt_map, Pipeline.taskAt_of_steps hsteps]
  | addDirectory path globs =>
      have hsteps := Pipeline.steps_addDirectory path globs pipeline
      rw [answer, Pipeline.taskAt_map, Pipeline.taskAt_of_steps hsteps]
  | addCache name =>
      have hsteps := Pipeline.steps_addCache name pipeline
      rw [answer, Pipeline.taskAt_map, Pipeline.taskAt_of_steps hsteps]
  | addPreset preset =>
      rw [answer, Pipeline.taskAt_map, Pipeline.read_addPreset hread]
  | setTemplate name setting =>
      have hsteps := Pipeline.steps_setTemplate name setting pipeline
      rw [answer, Pipeline.taskAt_map, Pipeline.taskAt_of_steps hsteps]
  | chain stages => rw [answer, Pipeline.taskAt_map, Pipeline.taskAt_chain]
  | setTask | setGate => cases h
  | reopenTask name setting =>
      have hindex : pipeline.index? name = none := Option.map_eq_none_iff.mp h
      rw [answer, Build.perform_map, Pipeline.perform_setTask_of_unknown hindex]
  | reopenGate name setting =>
      have hindex : pipeline.index? name = none := Option.map_eq_none_iff.mp h
      rw [answer, Build.perform_map, Pipeline.perform_setGate_of_unknown hindex]

/-- The setting that the task at the place accepts with the request. -/
def accepted? (pipeline : Pipeline) (place : Nat) (request : Request) : Option TaskSetting :=
  (request.target? pipeline).bind fun (target, setting) =>
    if target = place then pipeline.accepted? target setting else none

/-- Whatever is requested, a task reads in the end as before, or as with the setting that it
accepted. -/
theorem read_answer (hread : Unprepared read) (pipeline : Pipeline) (request : Request)
    (place : Nat) :
    read ((request.answer.perform pipeline).2.taskAt place) =
      read (pipeline.taskWith place (request.accepted? pipeline place)) := by
  rw [accepted?]
  cases htarget : request.target? pipeline with
  | none => exact read_answer_of_no_target hread htarget place
  | some found => rw [perform_answer htarget, Pipeline.taskAt_configure, Option.bind_some]

end Request

end CiPipeline
