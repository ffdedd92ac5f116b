import CiPipeline.Proofs.Pipeline.Each
import CiPipeline.Proofs.Pipeline.Execution
import CiPipeline.Proofs.Pipeline.Projection

/-!
# Outputs that other tasks take

A task that takes an output of another task depends on that task. Main statement: wherever an
artifact names a task at all, the task is in the document and in a level before that of the taker.
-/

namespace CiPipeline

/-! ## Dependencies on producers -/

namespace Step

/-- No dependency is without a name, and wherever an artifact names a task, the step depends on
it. -/
structure Sourced (step : Step) : Prop where
  named : "" ∉ step.dependencies
  covered : ∀ task, step.task? = some task → ∀ artifact ∈ task.artifacts, artifact.task ≠ "" →
    artifact.task ∈ step.dependencies

theorem Sourced.addDependencies {step : Step} (h : step.Sourced) (names : List String) :
    (step.addDependencies names).Sourced where
  named hempty := by
    rcases mem_dependencies_addDependencies.mp hempty with hold | ⟨-, hname⟩
    · exact h.named hold
    · exact hname rfl
  covered task htask artifact hartifact hname := by
    rw [task?_addDependencies] at htask
    have hold := h.covered task htask artifact hartifact hname
    exact mem_dependencies_addDependencies.mpr (.inl hold)

end Step

/-! ## Settings that ask for artifacts -/

/-- The artifact that a setting asks for. -/
def TaskSetting.artifact? : TaskSetting → Option Artifact
  | .inputFrom artifact => some artifact
  | _ => none

theorem TaskSetting.artifacts_change (templates : OrderedMap Template) (task : Task)
    (setting : TaskSetting) :
    (setting.change templates task).artifacts = task.artifacts ++ setting.artifact?.toList := by
  cases setting with
  | template name =>
      cases hfound : templates.get? name with
      | none => simp [change, artifact?, hfound]
      | some found => simp [change, artifact?, hfound, Task.takeOver]
  | _ => simp [change, artifact?]

theorem TaskSetting.mem_requests_of_artifact? {setting : TaskSetting} {artifact : Artifact}
    (h : setting.artifact? = some artifact) : artifact.task ∈ setting.requests := by
  cases setting with
  | inputFrom other =>
      cases h
      exact List.mem_singleton_self _
  | _ => cases h

namespace Pipeline

open TaskGraph

theorem kept_sourced : Kept Step.Sourced fun _ => True where
  newTask _ := by
    refine ⟨List.not_mem_nil, ?_⟩
    rintro _ ⟨⟩ artifact hartifact
    cases hartifact
  newGate _ := by
    refine ⟨List.not_mem_nil, ?_⟩
    rintro _ ⟨⟩
  unset := trivial
  setTask {templates step next task setting} hstep _ htask h := by
    have happlied := TaskSetting.applied htask h
    have hasked := hstep.addDependencies setting.requests
    refine ⟨happlied.dependencies_eq ▸ hasked.named, fun set hset artifact hartifact hname => ?_⟩
    rw [happlied.task_eq] at hset
    cases hset
    rw [TaskSetting.artifacts_change] at hartifact
    rw [happlied.dependencies_eq, Step.mem_dependencies_addDependencies]
    rcases List.mem_append.mp hartifact with hold | hnew
    · exact .inl (hstep.covered task htask artifact hold hname)
    · exact .inr ⟨TaskSetting.mem_requests_of_artifact? (Option.mem_toList.mp hnew), hname⟩
  setGate {step next gate setting} hstep _ h := by
    have happlied := GateSetting.applied h
    have hasked := hstep.addDependencies setting.requests
    refine ⟨happlied.dependencies_eq ▸ hasked.named, fun task htask => ?_⟩
    rw [Step.task?_eq_none_of_gate? happlied.gate_eq] at htask
    cases htask
  setTemplate _ _ := trivial
  addDependencies names hstep := hstep.addDependencies names

/-! ## Producers -/

variable {pipeline : Pipeline}

/-- An artifact in a document is one of a task of the pipeline. -/
theorem exists_step_of_artifact (h : pipeline.Reachable) {entry : TaskEntry}
    (hentry : entry ∈ pipeline.project.tasks) {artifact : Artifact}
    (hartifact : artifact ∈ entry.artifacts) :
    ∃ step ∈ pipeline.steps, ∃ task, step.task? = some task ∧ artifact ∈ task.artifacts ∧
      step.name = entry.name := by
  obtain ⟨step, hstep, rfl⟩ := mem_tasks_project.mp hentry
  have hsettings := (h.exclusive hstep).settings_eq
  have hkept : artifact ∈ step.settings.artifacts := hartifact
  cases htask : step.task? with
  | none =>
      rw [hsettings, htask] at hkept
      cases hkept
  | some task =>
      rw [hsettings, htask] at hkept
      exact ⟨step, hstep, task, htask, hkept, rfl⟩

/-- Wherever an artifact names a task, its taker depends on that task. -/
theorem dependsOn_of_artifact (h : pipeline.Reachable) {entry : TaskEntry}
    (hentry : entry ∈ pipeline.project.tasks) {artifact : Artifact}
    (hartifact : artifact ∈ entry.artifacts) (hnamed : artifact.task ≠ "") :
    pipeline.DependsOn entry.name artifact.task := by
  obtain ⟨step, hstep, task, htask, hartifact, hname⟩ := exists_step_of_artifact h hentry hartifact
  have hsourced := (h.each kept_sourced).steps step hstep
  exact ⟨step, hstep, hname, hsourced.covered task htask artifact hartifact hnamed⟩

theorem mem_names_iff_producer {name : String} :
    name ∈ pipeline.names ↔ ∃ producer ∈ pipeline.project.tasks, producer.name = name := by
  rw [← names_project, List.mem_map]

/-- A task depends on the tasks of its artifacts, as far as these are named. In a document these
tasks are there, and their levels are before that of the taker. -/
theorem takers_follow_producers (h : pipeline.Reachable) :
    (∀ step ∈ pipeline.steps, ∀ task, step.task? = some task → ∀ artifact ∈ task.artifacts,
      (artifact.task ∈ step.dependencies ↔ artifact.task ≠ "")) ∧
    ∀ document, pipeline.document = .ok document →
      ∃ levels, pipeline.executionLevels = .ok levels ∧
        ∀ entry ∈ document.tasks, ∀ artifact ∈ entry.artifacts,
          ((∃ producer ∈ document.tasks, producer.name = artifact.task) ↔ artifact.task ≠ "") ∧
            (artifact.task ≠ "" → StandsBefore levels artifact.task entry.name) := by
  constructor
  · intro step hstep task htask artifact hartifact
    have hsourced := (h.each kept_sourced).steps step hstep
    refine ⟨?_, hsourced.covered task htask artifact hartifact⟩
    intro hdependency hempty
    exact hsourced.named (hempty ▸ hdependency)
  · intro document hdocument
    obtain ⟨hvalid, rfl⟩ := document_eq_ok_iff.mp hdocument
    obtain ⟨levels, hlevels, hstands, hbefore⟩ := executionLevels_of_valid h hvalid
    refine ⟨levels, hlevels, fun entry hentry artifact hartifact => ?_⟩
    have hdepends := dependsOn_of_artifact h hentry hartifact
    have hknown : artifact.task ≠ "" → artifact.task ∈ pipeline.names := by
      intro hnamed
      obtain ⟨other, hother, -, hdependency⟩ := hdepends hnamed
      exact ((validate_eq_ok_iff h.indexed).mp hvalid).resolved other hother _ hdependency
    rw [← mem_names_iff_producer]
    refine ⟨⟨fun hmem hempty => h.indexed.not_empty (hempty ▸ hmem), hknown⟩, fun hnamed => ?_⟩
    constructor
    · exact (hstands _ (hknown hnamed)).exists
    · exact (hstands _ (mem_names_iff_producer.mpr ⟨entry, hentry, rfl⟩)).exists
    · intro low high
      exact hbefore _ _ low high (hdepends hnamed)

/-- A test that takes the binary of a build. -/
theorem takers_follow_build :
    let pipeline := (withDefaults none).afterCalls
      [.addTask "test", .setTask 0 (.run "make test"),
        .setTask 0 (.inputFrom ⟨"build", "binary", "/bin/app"⟩),
        .addTask "build", .setTask 1 (.run "make")]
    pipeline.Reachable ∧ pipeline.document = .ok pipeline.project ∧
      ∃ levels, pipeline.executionLevels = .ok levels ∧ StandsBefore levels "build" "test" := by
  intro pipeline
  have hreachable : pipeline.Reachable := (Reachable.start none).afterCalls _
  have hvalid : pipeline.validate = .ok () := by decide +kernel
  have hdocument : pipeline.document = .ok pipeline.project :=
    document_eq_ok_iff.mpr ⟨hvalid, rfl⟩
  obtain ⟨levels, hlevels, hall⟩ := (takers_follow_producers hreachable).2 _ hdocument
  have hentry : ∃ entry ∈ pipeline.project.tasks, entry.name = "test" ∧
      ⟨"build", "binary", "/bin/app"⟩ ∈ entry.artifacts := by decide +kernel
  obtain ⟨entry, hentry, hname, hartifact⟩ := hentry
  have hbefore := (hall entry hentry _ hartifact).2 (by decide)
  rw [hname] at hbefore
  exact ⟨hreachable, hdocument, levels, hlevels, hbefore⟩

/-- An artifact of a task without a name is taken and comes into the document, but the taker has
no dependency. -/
theorem artifact_without_producer :
    let pipeline := (withDefaults none).afterCalls
      [.addTask "t", .setTask 0 (.run "make"), .setTask 0 (.inputFrom ⟨"", "bin", "/bin/app"⟩)]
    pipeline.Reachable ∧ ∃ document, pipeline.document = .ok document ∧
      ∃ entry ∈ document.tasks, ∃ artifact ∈ entry.artifacts,
        artifact.task ∉ entry.dependencies ∧
          ∀ producer ∈ document.tasks, producer.name ≠ artifact.task := by
  intro pipeline
  have hreachable : pipeline.Reachable := (Reachable.start none).afterCalls _
  have hvalid : pipeline.validate = .ok () := by decide +kernel
  have hartifact : ∃ entry ∈ pipeline.project.tasks, ∃ artifact ∈ entry.artifacts,
      artifact.task ∉ entry.dependencies ∧
        ∀ producer ∈ pipeline.project.tasks, producer.name ≠ artifact.task := by decide +kernel
  exact ⟨hreachable, _, document_eq_ok_iff.mpr ⟨hvalid, rfl⟩, hartifact⟩

end Pipeline

end CiPipeline
