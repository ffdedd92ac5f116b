import CiPipeline.Proofs.Document.Omission
import CiPipeline.Proofs.Document.RoundTrip
import CiPipeline.Proofs.Pipeline.Each
import CiPipeline.Proofs.Pipeline.Projection

/-!
# What the documents of pipelines leave out

Texts that were set to nothing are kept out of a document by the checks of the settings, by the
projection or by the writer. Main statement: what is written for a pipeline has no optional member
that says nothing, but for the texts of its gates, which nothing keeps out.
-/

namespace CiPipeline

/-! ## Texts that settings keep out -/

/-- The texts of a task that are projected as they stand are not empty. -/
structure Task.Filled (task : Task) : Prop where
  command : task.command ≠ some ""
  container : task.container ≠ some ""
  provides : ∀ capability ∈ task.provides, capability.value ≠ some ""

def Step.Filled (step : Step) : Prop := step.settings.Filled

def Template.Filled (template : Template) : Prop := template.container ≠ some ""

theorem Task.filled_unset : Task.Filled .unset :=
  ⟨by simp [unset], by simp [unset], by simp [unset]⟩

theorem nonempty?_ne_some_empty (text : Option String) : nonempty? text ≠ some "" := by
  simp [nonempty?, Option.filter_eq_some_iff]

theorem Task.Filled.takeOver {task : Task} {template : Template} (htask : task.Filled)
    (htemplate : template.Filled) : (task.takeOver template).Filled where
  command := htask.command
  container := by
    rw [Task.takeOver]
    dsimp only
    split
    · exact htemplate
    · exact htask.container
  provides := htask.provides

theorem TaskSetting.filled_change {templates : OrderedMap Template} {step next : Step}
    {task : Task} {setting : TaskSetting} (htask : task.Filled)
    (htemplates : ∀ name template, templates.get? name = some template → template.Filled)
    (h : setting.apply templates step task = .ok next) :
    (setting.change templates task).Filled := by
  cases setting with
  | run command =>
      have hcommand : command ≠ "" := by
        rintro rfl
        cases h
      exact ⟨by simpa [change] using hcommand, htask.container, htask.provides⟩
  | container image =>
      have himage : image ≠ "" := by
        rintro rfl
        cases h
      exact ⟨htask.command, by simpa [change] using himage, htask.provides⟩
  | provides name value =>
      refine ⟨htask.command, htask.container, fun capability hcapability => ?_⟩
      rcases List.mem_append.mp hcapability with hold | hnew
      · exact htask.provides capability hold
      · rw [List.mem_singleton.mp hnew]
        exact nonempty?_ne_some_empty value
  | template name =>
      rw [change]
      cases hfound : templates.get? name with
      | none => exact htask
      | some found => exact htask.takeOver (htemplates name found hfound)
  | _ => exact ⟨htask.command, htask.container, htask.provides⟩

theorem TemplateSetting.filled {name : String} {template next : Template}
    {setting : TemplateSetting} (htemplate : template.Filled)
    (h : setting.apply name template = .ok next) : next.Filled := by
  obtain ⟨hpassed, rfl⟩ := granted_eq_ok_iff.mp h
  cases setting with
  | container image =>
      have himage : image.isEmpty = false := objection_eq_none_iff.mp hpassed
      simpa [Template.Filled, change] using himage
  | _ => exact htemplate

namespace Pipeline

theorem kept_filled : Kept Step.Filled Template.Filled where
  newTask _ := Task.filled_unset
  newGate _ := Task.filled_unset
  unset := by simp [Template.Filled, Template.unset]
  setTask hstep htemplates htask h := by
    obtain ⟨-, rfl⟩ := Step.task?_eq_some_iff.mp htask
    obtain ⟨-, hsettings⟩ := Step.task?_eq_some_iff.mp (TaskSetting.applied htask h).task_eq
    rw [Step.Filled, hsettings]
    exact TaskSetting.filled_change hstep htemplates h
  setGate hstep _ h := by rwa [Step.Filled, (GateSetting.applied h).settings_eq]
  setTemplate := TemplateSetting.filled
  addDependencies names hstep := by
    rwa [Step.Filled, Step.settings_addDependencies]

end Pipeline

/-! ## Texts that the projection keeps out -/

theorem given?_ne_some_empty (text : String) : given? text ≠ some "" :=
  nonempty?_ne_some_empty (some text)

theorem KubernetesOptions.worded_request {options : KubernetesOptions} {request : ClusterRequest}
    (h : options.request? = some request) : request.Worded := by
  obtain ⟨hasks, ⟨⟩⟩ := Option.ite_none_left_eq_some.mp h
  exact ⟨given?_ne_some_empty _, given?_ne_some_empty _, given?_ne_some_empty _, hasks⟩

theorem Task.worded_semantics {task : Task} {semantics : Semantics}
    (h : task.semantics? = some semantics) : semantics.Worded := by
  obtain ⟨hdescribes, ⟨⟩⟩ := Option.ite_none_left_eq_some.mp h
  exact ⟨nonempty?_ne_some_empty _, hdescribes⟩

theorem Task.hooks_ne_unset {task : Task} {hooks : Hooks} (h : task.hooks? = some hooks) :
    hooks ≠ .unset := by
  obtain ⟨hset, ⟨⟩⟩ := Option.ite_none_left_eq_some.mp h
  exact hset

/-- What the engine is told about a step says something throughout, whatever kind it is of. -/
theorem Step.worded_entry {step : Step} (h : step.Filled) (defaults : Option KubernetesOptions) :
    (step.entry defaults).Worded := by
  constructor
  case command => exact h.command
  case container => exact h.container
  case workdir => exact nonempty?_ne_some_empty _
  case condition => exact nonempty?_ne_some_empty _
  case target => exact nonempty?_ne_some_empty _
  case cluster =>
    intro request hrequest
    have hasked : clusterRequest? defaults step.settings = some request := hrequest
    rw [clusterRequest?_eq] at hasked
    obtain ⟨options, -, hoptions⟩ := Option.bind_eq_some_iff.mp hasked
    exact KubernetesOptions.worded_request hoptions
  case provides => exact h.provides
  case semantics => exact fun _ => Task.worded_semantics
  case hooks => exact fun _ => Task.hooks_ne_unset

/-! ## The written document -/

namespace Pipeline

theorem worded_tasks {pipeline : Pipeline} (h : pipeline.Reachable) {entry : TaskEntry}
    (hentry : entry ∈ pipeline.project.tasks) : entry.Worded := by
  obtain ⟨step, hstep, rfl⟩ := mem_tasks_project.mp hentry
  exact Step.worded_entry ((h.each kept_filled).steps step hstep) _

/-- What is written for a pipeline has no optional member that says nothing, but for the texts of
its gates: of these every one is there that was set, also if it was set to nothing. -/
theorem text_omits_all_but_gate_texts {pipeline : Pipeline} (h : pipeline.Reachable)
    {text : String} (htext : pipeline.text = .ok text) :
    ∃ json, Json.parse? text = some json ∧ ∀ kind name,
      json.Idle kind name ↔ kind = .gate ∧ ∃ step ∈ pipeline.steps, ∃ gate,
        step.gate? = some gate ∧ (name, some "") ∈ gate.texts := by
  obtain ⟨-, rfl⟩ := text_eq_ok_iff.mp htext
  refine ⟨_, Json.parse?_compact (Document.faithful.readable _), fun kind name => ?_⟩
  rw [Document.idle_iff fun entry => worded_tasks h]
  refine and_congr_right fun _ => ?_
  constructor
  · rintro ⟨entry, hentry, gate, hgate, htext⟩
    obtain ⟨step, hstep, rfl⟩ := mem_tasks_project.mp hentry
    exact ⟨step, hstep, gate, hgate, htext⟩
  · rintro ⟨step, hstep, gate, hgate, htext⟩
    exact ⟨_, mem_tasks_project.mpr ⟨step, hstep, rfl⟩, gate, hgate, htext⟩

/-- A task with three settings that were set to nothing and a gate with a message. -/
theorem text_omits_blank_settings :
    let pipeline := (withDefaults none).afterCalls
      [.addTask "t", .setTask 0 (.run "make"), .setTask 0 (.workdir ""), .setTask 0 (.target ""),
        .setTask 0 (.intent ""), .addGate "g", .setGate 1 (.message "Ship?")]
    pipeline.Reachable ∧ pipeline.text = .ok pipeline.project.text ∧
      ∃ json, Json.parse? pipeline.project.text = some json ∧
        ∀ kind name, ¬ json.Idle kind name := by
  intro pipeline
  have hreachable : pipeline.Reachable := (Reachable.start none).afterCalls _
  have hvalid : pipeline.validate = .ok () := by decide +kernel
  have htext : pipeline.text = .ok pipeline.project.text := text_eq_ok_iff.mpr ⟨hvalid, rfl⟩
  obtain ⟨json, hjson, hidle⟩ := text_omits_all_but_gate_texts hreachable htext
  refine ⟨hreachable, htext, json, hjson, fun kind name h => ?_⟩
  obtain ⟨-, step, hstep, gate, hgate, hempty⟩ := (hidle kind name).mp h
  have hgates : ∀ step ∈ pipeline.steps, ∀ gate ∈ step.gate?, ∀ text ∈ gate.texts,
      text.2 ≠ some "" := by decide +kernel
  exact hgates step hstep gate hgate _ hempty rfl

/-- A gate whose message was set to nothing: the message is written. -/
theorem text_keeps_blank_message :
    let pipeline := (withDefaults none).afterCalls [.addGate "g", .setGate 0 (.message "")]
    pipeline.Reachable ∧ ∃ text json, pipeline.text = .ok text ∧ Json.parse? text = some json ∧
      json.Idle .gate "message" := by
  intro pipeline
  have hreachable : pipeline.Reachable := (Reachable.start none).afterCalls _
  have hvalid : pipeline.validate = .ok () := by decide +kernel
  have hgate : ∃ entry ∈ pipeline.project.tasks, ∃ gate ∈ entry.gate,
      ("message", some "") ∈ gate.texts := by decide +kernel
  have hworded : ∀ entry ∈ pipeline.project.tasks, entry.Worded := fun entry =>
    worded_tasks hreachable
  have hidle := (Document.idle_iff hworded).mpr ⟨rfl, hgate⟩
  exact ⟨hreachable, _, _, text_eq_ok_iff.mpr ⟨hvalid, rfl⟩,
    Json.parse?_compact (Document.faithful.readable _), hidle⟩

end Pipeline

end CiPipeline
