import CiPipeline.Pipeline.Validation

/-!
# The document of a valid pipeline

A document is given for valid pipelines only, it is the projection of the pipeline, and it has the
whole registry. What a task asks of the cluster is the request of one set of options.
-/

namespace CiPipeline

/-! ## Requests -/

/-- The options that a step asks for: its own, or those that it only passes through, or the
defaults. -/
def askedOptions? (defaults : Option KubernetesOptions) (task : Task) :
    Option KubernetesOptions :=
  match task.ownCluster? with
  | some own => some (own.override task.clusterRaw)
  | none =>
      if task.clusterRaw.isEmpty then defaults.map KubernetesOptions.withoutRaw
      else some (KubernetesOptions.unset.override task.clusterRaw)

theorem clusterRequest?_eq (defaults : Option KubernetesOptions) (task : Task) :
    clusterRequest? defaults task =
      (askedOptions? defaults task).bind KubernetesOptions.request? := by
  rw [clusterRequest?, askedOptions?]
  cases task.ownCluster? with
  | some own => rfl
  | none =>
      dsimp only
      split
      · rw [Option.bind_map]
        rfl
      · rfl

/-! ## Documents -/

namespace Pipeline

variable {pipeline : Pipeline}

theorem document_eq_ok_iff {document : Document} :
    pipeline.document = .ok document ↔
      pipeline.validate = .ok () ∧ document = pipeline.project := by
  rw [Pipeline.document, whenValid]
  cases pipeline.validate with
  | error problem => simp
  | ok => simp [eq_comm]

theorem text_eq_ok_iff {text : String} :
    pipeline.text = .ok text ↔ pipeline.validate = .ok () ∧ text = pipeline.project.text := by
  rw [Pipeline.text, document, whenValid]
  cases pipeline.validate with
  | error problem => simp [Except.map]
  | ok => simp [Except.map, eq_comm]

/-- The registry is left out only where it is empty. -/
theorem resources_project (pipeline : Pipeline) :
    pipeline.project.resources = pipeline.resources := by
  rw [project, version]
  by_cases hempty : pipeline.resources.isEmpty = true
  · have hnil : pipeline.resources.toList = [] := List.isEmpty_iff.mp hempty
    split
    · rfl
    · exact OrderedMap.ext hnil.symm
  · have hcontainers : (!pipeline.resources.isEmpty || pipeline.steps.any Step.usesContainer) =
        true := by
      simp [hempty]
    rw [if_pos hcontainers]

/-- The tasks of a document are the steps in their order. -/
theorem mem_tasks_project {entry : TaskEntry} :
    entry ∈ pipeline.project.tasks ↔
      ∃ step ∈ pipeline.steps, step.entry pipeline.defaults = entry := by
  rw [project, List.mem_map]

theorem names_project (pipeline : Pipeline) :
    pipeline.project.tasks.map TaskEntry.name = pipeline.names := by
  rw [project, List.map_map, names]
  rfl

end Pipeline

end CiPipeline
