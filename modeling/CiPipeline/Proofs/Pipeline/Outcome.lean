import CiPipeline.Pipeline.Setting
import CiPipeline.Proofs.Pipeline.Computation
import Mathlib.Data.List.Basic

/-!
# What settings come to

A setting of a task, a gate or a template is refused, with the pipeline as it was, or it passes its
checks and changes one step or template, besides what it registers. Both are told here without the
pipeline on which they are performed, and each setting is held to it.
-/

namespace CiPipeline

/-! ## Objections -/

/-- The refusal by a check that finds something wrong. -/
def objection (wrong : Bool) (refusal : Refusal) : Option Refusal :=
  if wrong then some refusal else none

/-- The refusal by a part that may fail. -/
def objectionOf : Except Refusal α → Option Refusal
  | .error refusal => some refusal
  | .ok _ => none

theorem objection_eq_none_iff {wrong : Bool} {refusal : Refusal} :
    objection wrong refusal = none ↔ wrong = false := by
  cases wrong <;> simp [objection]

/-- What is granted if there is no objection to it. -/
def granted (objection : Option Refusal) (value : α) : Except Refusal α :=
  match objection with
  | some refusal => .error refusal
  | none => .ok value

theorem granted_eq_ok_iff {objection : Option Refusal} {value other : α} :
    granted objection value = .ok other ↔ objection = none ∧ other = value := by
  cases objection with
  | some refusal => simp [granted]
  | none => simp [granted, eq_comm]

namespace Pipeline

/-- The outcome of a call that changes nothing if there is an objection to it. -/
def decided (pipeline : Pipeline) (objection : Option Refusal) (next : Pipeline) :
    Except Refusal Unit × Pipeline :=
  match objection with
  | some refusal => (.error refusal, pipeline)
  | none => (.ok (), next)

variable {pipeline next : Pipeline} {place : Nat} {step : Step} {rest : Build Unit}

theorem perform_refuseIf_bind {objections : Option Refusal} (wrong : Bool) (refusal : Refusal)
    (h : rest.perform pipeline = pipeline.decided objections next) :
    (do Build.refuseIf wrong refusal; rest).perform pipeline =
      pipeline.decided ((objection wrong refusal).or objections) next := by
  rw [Build.perform_bind, Build.perform_refuseIf]
  cases wrong with
  | true => rfl
  | false => exact h

theorem perform_refuseIf_then (wrong : Bool) (refusal : Refusal)
    (h : rest.perform pipeline = (.ok (), next)) :
    (do Build.refuseIf wrong refusal; rest).perform pipeline =
      pipeline.decided (objection wrong refusal) next := by
  rw [Build.perform_bind, Build.perform_refuseIf]
  cases wrong with
  | true => rfl
  | false => exact h

/-! ## Steps in place -/

theorem perform_changeStep (hstep : pipeline.steps[place]? = some step) (change : Step → Step) :
    (changeStep place change).perform pipeline = (.ok (), pipeline.putStep place (change step)) := by
  rw [changeStep, Build.perform_modify, List.modify_eq_set_getElem?, hstep]
  rfl

theorem perform_changeTask (hstep : pipeline.steps[place]? = some step) (change : Task → Task) :
    (changeTask place change).perform pipeline =
      (.ok (), pipeline.putStep place { step with settings := change step.settings }) :=
  perform_changeStep hstep _

/-- What is registered before has nothing to do with the step. -/
theorem perform_changeTask_registered (hstep : pipeline.steps[place]? = some step)
    (resources : Registry) (change : Task → Task) :
    (changeTask place change).perform { pipeline with resources } =
      (.ok (), { pipeline.putStep place { step with settings := change step.settings } with
        resources }) := by
  have hregistered : ({ pipeline with resources } : Pipeline).steps[place]? = some step := hstep
  exact perform_changeTask hregistered change

theorem perform_changeGate (hstep : pipeline.steps[place]? = some step) {gate : Gate}
    (hgate : step.gate? = some gate) (change : Gate → Gate) :
    (changeGate place change).perform pipeline =
      (.ok (), pipeline.putStep place { step with gate? := some (change gate) }) := by
  rw [changeGate, perform_changeStep hstep, hgate]
  rfl

theorem perform_changeTask_bind (hstep : pipeline.steps[place]? = some step)
    (change : Task → Task) :
    (do changeTask place change; rest).perform pipeline =
      rest.perform (pipeline.putStep place { step with settings := change step.settings }) := by
  rw [Build.perform_bind, perform_changeTask hstep]

theorem getElem?_putStep_self (hstep : pipeline.steps[place]? = some step) (other : Step) :
    (pipeline.putStep place other).steps[place]? = some other := by
  obtain ⟨hlt, -⟩ := List.getElem?_eq_some_iff.mp hstep
  rw [putStep, List.getElem?_set_self hlt]

@[simp] theorem putStep_putStep (pipeline : Pipeline) (place : Nat) (step other : Step) :
    (pipeline.putStep place step).putStep place other = pipeline.putStep place other := by
  rw [putStep, putStep, List.set_set, putStep]

theorem perform_ensureDirectory_bind (directory : Directory) :
    (do ensureDirectory directory; rest).perform pipeline =
      rest.perform { pipeline with
        resources := Registry.addDirectory pipeline.resources directory [] } := by
  rw [Build.perform_bind]
  rfl

theorem perform_ensureCache_bind (cache : Cache) :
    (do ensureCache cache; rest).perform pipeline =
      rest.perform { pipeline with resources := Registry.addCache pipeline.resources cache } := by
  rw [Build.perform_bind]
  rfl

theorem perform_mountCurrentAt (hstep : pipeline.steps[place]? = some step) (path : String) :
    (Pipeline.mountCurrentAt place path).perform pipeline =
      (.ok (), { pipeline.putStep place { step with settings := { step.settings with
          workdir := some path
          mounts := step.settings.mounts ++ [Directory.current.mountAt path] } } with
        resources := Registry.addDirectory pipeline.resources .current [] }) := by
  let registered : Pipeline :=
    { pipeline with resources := Registry.addDirectory pipeline.resources .current [] }
  have hregistered : registered.steps[place]? = some step := hstep
  rw [Pipeline.mountCurrentAt, perform_ensureDirectory_bind, perform_changeTask_bind hregistered,
    perform_changeTask (getElem?_putStep_self hregistered _), putStep_putStep]
  rfl

end Pipeline

/-- A task with the settings of a template: its own container, working directory and variables
come first, and the mounts of the template stand before its own. -/
def Task.takeOver (task : Task) (template : Template) : Task :=
  { task with
    container := if isBare task.container then template.container else task.container
    workdir := if isBare task.workdir then template.workdir else task.workdir
    env := template.env.extend task.env.toList
    mounts := template.mounts ++ task.mounts }

theorem Pipeline.perform_takeOver {pipeline : Pipeline} {place : Nat} {step : Step}
    (hstep : pipeline.steps[place]? = some step) (template : Template) :
    (Pipeline.takeOver place template).perform pipeline =
      (.ok (), pipeline.putStep place
        { step with settings := step.settings.takeOver template }) := by
  rw [takeOver, perform_changeTask_bind hstep,
    perform_changeTask_bind (getElem?_putStep_self hstep _), putStep_putStep,
    perform_changeTask_bind (getElem?_putStep_self hstep _), putStep_putStep,
    perform_changeTask (getElem?_putStep_self hstep _), putStep_putStep]
  rfl

/-! ## Tasks -/

namespace TaskSetting

/-- What there is to object to a setting of the task of the name. -/
def refusal? (templates : OrderedMap Template) (name : String) : TaskSetting → Option Refusal
  | .run command => objection command.isEmpty (.emptyCommand name)
  | .container image => objection image.isEmpty (.emptyContainerImage (.task name))
  | .mount _ path | .mountCache _ path | .mountCurrentAt path =>
      objection (!isAbsolute path) (.relativeMountPath (.task name) path)
  | .env key _ => objection key.isEmpty (.emptyEnvKey (.task name))
  | .secret secretName => objection secretName.isEmpty (.emptySecretName name)
  | .secrets names => objection (names.any String.isEmpty) (.emptySecretName name)
  | .secretFrom secretName reference =>
      (objection secretName.isEmpty (.emptySecretName name)).or
        (objection (reference.name != secretName)
          (.secretNameMismatch name secretName reference.name))
  | .timeout seconds => objection (seconds == 0) (.zeroTimeout name)
  | .criticality choice => objectionOf (settle choice)
  | .onFailure choice => objectionOf (settle choice)
  | .selection choice => objectionOf (settle choice)
  | .provides capability _ => objection capability.isEmpty (.emptyCapability name)
  | .needs names => objection (names.any String.isEmpty) (.emptyCapability name)
  | .template templateName =>
      objection (templates.get? templateName).isNone (.unknownTemplate name templateName)
  | _ => none

/-- The steps that a setting asks to come first. -/
def requests : TaskSetting → List String
  | .after names => names
  | .afterGroups groups => groups.flatMap TaskGroup.last
  | .inputFrom artifact => [artifact.task]
  | _ => []

/-- The condition that a setting gives. -/
def condition? : TaskSetting → Option Condition
  | .condition c => some c
  | _ => none

/-- The task with the setting, once that has passed its checks. -/
def change (templates : OrderedMap Template) (task : Task) : TaskSetting → Task
  | .run command => { task with command := some command }
  | .after _ | .afterGroups _ | .condition _ => task
  | .inputs patterns => { task with inputs := task.inputs ++ patterns }
  | .container image => { task with container := some image }
  | .workdir path => { task with workdir := some path }
  | .mount directory path => { task with mounts := task.mounts ++ [directory.mountAt path] }
  | .mountCache cache path => { task with mounts := task.mounts ++ [cache.mountAt path] }
  | .mountCurrent =>
      { task with
        workdir := some currentMountPath
        mounts := task.mounts ++ [Directory.current.mountAt currentMountPath] }
  | .mountCurrentAt path =>
      { task with
        workdir := some path
        mounts := task.mounts ++ [Directory.current.mountAt path] }
  | .env key value => { task with env := task.env.insert key value }
  | .service image name => { task with services := task.services ++ [⟨image, name⟩] }
  | .output name path => { task with outputs := task.outputs.insert name path }
  | .outputs paths => { task with unnamedOutputs := task.unnamedOutputs ++ paths }
  | .inputFrom artifact => { task with artifacts := task.artifacts ++ [artifact] }
  | .secret name => { task with secrets := task.secrets ++ [name] }
  | .secrets names => { task with secrets := task.secrets ++ names }
  | .secretFrom _ reference =>
      { task with secretReferences := task.secretReferences ++ [reference] }
  | .matrix key values => { task with matrix := task.matrix.insert key values }
  | .retry attempts => { task with retry := attempts }
  | .timeout seconds => { task with timeout := seconds }
  | .target name => { task with target := some name }
  | .cluster options => { task with cluster := some options }
  | .clusterRaw text => { task with clusterRaw := text }
  | .requires labels => { task with requires := task.requires ++ labels }
  | .covers patterns => { task with covers := task.covers ++ patterns }
  | .intent description => { task with intent := some description }
  | .criticality level => { task with criticality := level.resolve.toOption }
  | .critical => { task with criticality := some .high }
  | .onFailure action => { task with onFailure := action.resolve.toOption }
  | .selection mode => { task with selection := mode.resolve.toOption }
  | .smart => { task with selection := some .smart }
  | .provides name value =>
      { task with provides := task.provides ++ [⟨name, nonempty? value⟩] }
  | .needs names => { task with needs := task.needs ++ names }
  | .template name => ((templates.get? name).map task.takeOver).getD task

/-- The step with the setting, once that has passed its checks. -/
def update (templates : OrderedMap Template) (step : Step) (task : Task) (setting : TaskSetting) :
    Step :=
  { step with
    dependencies := (step.addDependencies setting.requests).dependencies
    condition := setting.condition?.or step.condition
    settings := setting.change templates task }

/-- The step with the setting, or the refusal of the setting. -/
def apply (templates : OrderedMap Template) (step : Step) (task : Task) (setting : TaskSetting) :
    Except Refusal Step :=
  granted (setting.refusal? templates step.name) (setting.update templates step task)

/-- The registry after the setting: what a task mounts is registered. -/
def registerIn (registry : Registry) : TaskSetting → Registry
  | .mount directory _ => Registry.addDirectory registry directory []
  | .mountCache cache _ => Registry.addCache registry cache
  | .mountCurrent => Registry.addDirectory registry .current []
  | .mountCurrentAt _ => Registry.addDirectory registry .current []
  | _ => registry

theorem settle_eq_ok [Vocabulary α] {choice : Choice α} {value : α}
    (h : settle choice = .ok value) : choice.resolve.toOption = some value := by
  rw [settle] at h
  cases hresolve : choice.resolve with
  | error word =>
      rw [hresolve] at h
      cases h
  | ok found =>
      rw [hresolve] at h
      cases h
      rfl

open Pipeline

variable {pipeline : Pipeline} {place : Nat} {step : Step}

/-- A setting is refused before it has changed anything, whatever stands at the place; else it
changes the step there, and registers what it mounts. -/
theorem perform_make (hstep : pipeline.steps[place]? = some step) (setting : TaskSetting) :
    (setting.make place step.name).perform pipeline =
      pipeline.decided (setting.refusal? pipeline.templates step.name)
        { pipeline.putStep place (setting.update pipeline.templates step step.settings) with
          resources := setting.registerIn pipeline.resources } := by
  cases setting with
  | after names | afterGroups groups =>
      rw [make, perform_changeStep hstep, Step.addDependencies_eq]
      rfl
  | condition =>
      rw [make]
      exact perform_changeStep hstep _
  | inputs | workdir | service | output | outputs | matrix | retry | target | cluster | clusterRaw
  | requires | covers | intent | critical | smart =>
      rw [make]
      exact perform_changeTask hstep _
  | run | container | env | secret | secrets | timeout | provides | needs =>
      rw [make]
      exact perform_refuseIf_then _ _ (perform_changeTask hstep _)
  | secretFrom =>
      rw [make]
      exact perform_refuseIf_bind _ _ (perform_refuseIf_then _ _ (perform_changeTask hstep _))
  | mount directory path =>
      rw [make]
      refine perform_refuseIf_then _ _ ?_
      rw [perform_ensureDirectory_bind]
      exact perform_changeTask_registered hstep _ _
  | mountCache cache path =>
      rw [make]
      refine perform_refuseIf_then _ _ ?_
      rw [perform_ensureCache_bind]
      exact perform_changeTask_registered hstep _ _
  | mountCurrent =>
      rw [make]
      exact perform_mountCurrentAt hstep _
  | mountCurrentAt path =>
      rw [make]
      exact perform_refuseIf_then _ _ (perform_mountCurrentAt hstep path)
  | inputFrom artifact =>
      rw [make, perform_changeTask_bind hstep,
        perform_changeStep (getElem?_putStep_self hstep _), putStep_putStep,
        Step.addDependency_of_settings]
      rfl
  | criticality choice | onFailure choice | selection choice =>
      rw [make, Build.perform_bind, Build.perform_ofExcept, refusal?]
      cases hchoice : settle choice with
      | error refusal => rfl
      | ok value =>
          have hvalue := settle_eq_ok hchoice
          rw [update, change, hvalue]
          exact perform_changeTask hstep _
  | template name =>
      rw [make, Build.perform_bind, Build.perform_get, refusal?, update, change]
      dsimp only
      cases pipeline.templates.get? name with
      | none => rfl
      | some found => exact perform_takeOver hstep found

end TaskSetting

/-! ## Gates -/

namespace GateSetting

/-- What there is to object to a setting of the gate of the name. -/
def refusal? (name : String) : GateSetting → Option Refusal
  | .strategy choice => objectionOf (TaskSetting.settle choice)
  | .timeout seconds => objection (seconds == 0) (.zeroGateTimeout name)
  | _ => none

/-- The steps that a setting asks to come first. -/
def requests : GateSetting → List String
  | .after names => names
  | .afterGroups groups => groups.flatMap TaskGroup.last
  | _ => []

/-- The condition that a setting gives. -/
def condition? : GateSetting → Option Condition
  | .condition c => some c
  | _ => none

/-- The gate with the setting, once that has passed its checks. -/
def change (gate : Gate) : GateSetting → Gate
  | .strategy choice => { gate with strategy := choice.resolve.toOption.getD gate.strategy }
  | .message text => { gate with message := some text }
  | .timeout seconds => { gate with timeout := seconds }
  | .envVariable name => { gate with envVariable := some name }
  | .filePath path => { gate with filePath := some path }
  | .after _ | .afterGroups _ | .condition _ => gate

/-- The step with the setting, once that has passed its checks. -/
def update (step : Step) (gate : Gate) (setting : GateSetting) : Step :=
  { step with
    dependencies := (step.addDependencies setting.requests).dependencies
    condition := setting.condition?.or step.condition
    gate? := some (setting.change gate) }

/-- The step with the setting, or the refusal of the setting. -/
def apply (step : Step) (gate : Gate) (setting : GateSetting) : Except Refusal Step :=
  granted (setting.refusal? step.name) (setting.update step gate)

open Pipeline

variable {pipeline : Pipeline} {place : Nat} {step : Step}

theorem perform_make (hstep : pipeline.steps[place]? = some step) {gate : Gate}
    (hgate : step.gate? = some gate) (setting : GateSetting) :
    (setting.make place step.name).perform pipeline =
      pipeline.decided (setting.refusal? step.name)
        (pipeline.putStep place (setting.update step gate)) := by
  cases setting with
  | after names | afterGroups groups =>
      rw [make, perform_changeStep hstep, Step.addDependencies_eq, update, change, ← hgate]
      rfl
  | condition =>
      rw [make, perform_changeStep hstep, update, change, ← hgate]
      rfl
  | message | envVariable | filePath =>
      rw [make]
      exact perform_changeGate hstep hgate _
  | timeout seconds =>
      rw [make]
      exact perform_refuseIf_then _ _ (perform_changeGate hstep hgate _)
  | strategy choice =>
      rw [make, Build.perform_bind, Build.perform_ofExcept, refusal?]
      cases hchoice : TaskSetting.settle choice with
      | error refusal => rfl
      | ok value =>
          have hvalue := TaskSetting.settle_eq_ok hchoice
          rw [update, change, hvalue]
          exact perform_changeGate hstep hgate _

end GateSetting

/-! ## Templates -/

namespace TemplateSetting

/-- What there is to object to a setting of the template of the name. -/
def refusal? (name : String) : TemplateSetting → Option Refusal
  | .container image => objection image.isEmpty (.emptyContainerImage (.template name))
  | .env key _ => objection key.isEmpty (.emptyEnvKey (.template name))
  | .mount _ path | .mountCache _ path =>
      objection (!isAbsolute path) (.relativeMountPath (.template name) path)
  | .workdir _ => none

/-- The template with the setting, once that has passed its checks. -/
def change (template : Template) : TemplateSetting → Template
  | .container image => { template with container := some image }
  | .workdir path => { template with workdir := some path }
  | .env key value => { template with env := template.env.insert key value }
  | .mount directory path =>
      { template with mounts := template.mounts ++ [directory.mountAt path] }
  | .mountCache cache path => { template with mounts := template.mounts ++ [cache.mountAt path] }

/-- The template with the setting, or the refusal of the setting. -/
def apply (name : String) (template : Template) (setting : TemplateSetting) :
    Except Refusal Template :=
  granted (setting.refusal? name) (setting.change template)

/-- The registry after the setting: what a template mounts is registered. -/
def registerIn (registry : Registry) : TemplateSetting → Registry
  | .mount directory _ => Registry.addDirectory registry directory []
  | .mountCache cache _ => Registry.addCache registry cache
  | _ => registry

open Pipeline

theorem perform_changeTemplate {pipeline : Pipeline} {name : String} {template : Template}
    (h : pipeline.templates.get? name = some template) (change : Template → Template) :
    (changeTemplate name change).perform pipeline =
      (.ok (), { pipeline with
        templates := pipeline.templates.insert name (change template) }) := by
  rw [changeTemplate, Build.perform_modify, h]
  rfl

theorem perform_changeTemplate_registered {pipeline : Pipeline} {name : String}
    {template : Template} (h : pipeline.templates.get? name = some template)
    (resources : Registry) (change : Template → Template) :
    (changeTemplate name change).perform { pipeline with resources } =
      (.ok (), { pipeline with
        templates := pipeline.templates.insert name (change template)
        resources }) := by
  have hregistered : ({ pipeline with resources } : Pipeline).templates.get? name =
      some template := h
  exact perform_changeTemplate hregistered change

theorem perform_make {pipeline : Pipeline} {name : String} {template : Template}
    (h : pipeline.templates.get? name = some template) (setting : TemplateSetting) :
    (setting.make name).perform pipeline =
      pipeline.decided (setting.refusal? name)
        { pipeline with
          templates := pipeline.templates.insert name (setting.change template)
          resources := setting.registerIn pipeline.resources } := by
  cases setting with
  | workdir =>
      rw [make]
      exact perform_changeTemplate h _
  | container | env =>
      rw [make]
      exact perform_refuseIf_then _ _ (perform_changeTemplate h _)
  | mount directory path =>
      rw [make]
      refine perform_refuseIf_then _ _ ?_
      rw [perform_ensureDirectory_bind]
      exact perform_changeTemplate_registered h _ _
  | mountCache cache path =>
      rw [make]
      refine perform_refuseIf_then _ _ ?_
      rw [perform_ensureCache_bind]
      exact perform_changeTemplate_registered h _ _

end TemplateSetting

/-! ## Calls -/

namespace Pipeline

variable {pipeline : Pipeline} {place : Nat} {step : Step}

/-- On a task a setting is refused, and nothing is changed, or the task is put in place with it. -/
theorem perform_setTaskAt_of_task {task : Task} (hstep : pipeline.steps[place]? = some step)
    (htask : step.task? = some task) (setting : TaskSetting) :
    (setTaskAt place setting).perform pipeline =
      match setting.apply pipeline.templates step task with
      | .error refusal => (.error refusal, pipeline)
      | .ok next => (.ok (), { pipeline.putStep place next with
          resources := setting.registerIn pipeline.resources }) := by
  obtain ⟨hgate, rfl⟩ := Step.task?_eq_some_iff.mp htask
  have hkind : step.isGate = false := by rw [Step.isGate, hgate, Option.isSome_none]
  rw [setTaskAt, Build.perform_bind, Build.perform_get]
  dsimp only
  rw [hstep]
  dsimp only
  rw [hkind, if_neg Bool.false_ne_true, TaskSetting.perform_make hstep, TaskSetting.apply]
  cases setting.refusal? pipeline.templates step.name <;> rfl

theorem perform_setTaskAt_of_none (h : (pipeline.steps[place]?).bind Step.task? = none)
    (setting : TaskSetting) : (setTaskAt place setting).perform pipeline = (.ok (), pipeline) := by
  rw [setTaskAt, Build.perform_bind, Build.perform_get]
  dsimp only
  cases hstep : pipeline.steps[place]? with
  | none => rfl
  | some step =>
      rw [hstep] at h
      have hkind : step.isGate = true := Option.isSome_iff_ne_none.mpr (Step.task?_eq_none_iff.mp h)
      dsimp only
      rw [hkind, if_pos rfl]
      rfl

theorem perform_setGateAt_of_gate {gate : Gate} (hstep : pipeline.steps[place]? = some step)
    (hgate : step.gate? = some gate) (setting : GateSetting) :
    (setGateAt place setting).perform pipeline =
      match setting.apply step gate with
      | .error refusal => (.error refusal, pipeline)
      | .ok next => (.ok (), pipeline.putStep place next) := by
  have hkind : step.isGate = true := by rw [Step.isGate, hgate, Option.isSome_some]
  rw [setGateAt, Build.perform_bind, Build.perform_get]
  dsimp only
  rw [hstep]
  dsimp only
  rw [hkind, if_pos rfl, GateSetting.perform_make hstep hgate, GateSetting.apply]
  cases setting.refusal? step.name <;> rfl

theorem perform_setGateAt_of_none (h : (pipeline.steps[place]?).bind Step.gate? = none)
    (setting : GateSetting) : (setGateAt place setting).perform pipeline = (.ok (), pipeline) := by
  rw [setGateAt, Build.perform_bind, Build.perform_get]
  dsimp only
  cases hstep : pipeline.steps[place]? with
  | none => rfl
  | some step =>
      rw [hstep] at h
      have hkind : step.isGate = false := by
        rw [Step.isGate]
        exact Option.isSome_eq_false_iff.mpr (Option.isNone_iff_eq_none.mpr h)
      dsimp only
      rw [hkind, if_neg Bool.false_ne_true]
      rfl

theorem perform_setTemplate_of_some {name : String} {template : Template}
    (h : pipeline.templates.get? name = some template) (setting : TemplateSetting) :
    (setTemplate name setting).perform pipeline =
      match setting.apply name template with
      | .error refusal => (.error refusal, pipeline)
      | .ok next => (.ok (), { pipeline with
          templates := pipeline.templates.insert name next
          resources := setting.registerIn pipeline.resources }) := by
  rw [setTemplate, Build.perform_bind, Build.perform_get]
  dsimp only
  rw [h]
  dsimp only
  rw [TemplateSetting.perform_make h, TemplateSetting.apply]
  cases setting.refusal? name <;> rfl

theorem perform_setTemplate_of_none {name : String} (h : pipeline.templates.get? name = none)
    (setting : TemplateSetting) :
    (setTemplate name setting).perform pipeline = (.ok (), pipeline) := by
  rw [setTemplate, Build.perform_bind, Build.perform_get]
  dsimp only
  rw [h]
  rfl

end Pipeline

end CiPipeline
