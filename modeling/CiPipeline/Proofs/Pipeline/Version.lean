import CiPipeline.Proofs.Pipeline.Growth
import CiPipeline.Proofs.Pipeline.Omission

/-!
# Versions of documents

A document has the higher version if it has a resource, or a task with a container or a mount. Main
statement: so it is exactly, no resource is lost with the lower version, and a pipeline that has
come to the higher version never falls back.
-/

namespace CiPipeline

/-! ## Steps -/

/-- In the entry of a step one sees whether it counts for the higher version. -/
theorem Step.usesContainer_eq_false_iff {step : Step} (defaults : Option KubernetesOptions) :
    step.usesContainer = false ↔
      (step.entry defaults).container = none ∧ (step.entry defaults).mounts = [] := by
  simp [usesContainer, entry]

theorem Step.usesContainer_iff {step : Step} :
    step.usesContainer = true ↔ step.settings.container ≠ none ∨ step.settings.mounts ≠ [] := by
  simp [usesContainer, Option.isSome_iff_ne_none]

/-- An image that says something is replaced only by one that does, and mounts are kept. -/
theorem Step.Extends.usesContainer {step later : Step} (h : step.Extends later)
    (hfilled : step.Filled) (huses : step.usesContainer = true) : later.usesContainer = true := by
  rw [Step.usesContainer_iff] at huses ⊢
  rcases huses with hcontainer | hmounts
  · left
    intro hnone
    obtain ⟨image, himage⟩ := Option.ne_none_iff_exists'.mp hcontainer
    have hbare : isBare step.settings.container = true :=
      h.settings.container (by rw [hnone]; rfl)
    rw [himage, isBare_some] at hbare
    exact hfilled.container (by rw [himage, hbare])
  · right
    intro hnil
    exact hmounts (List.sublist_nil.mp (hnil ▸ h.settings.mounts))

/-! ## Pipelines -/

namespace Pipeline

variable {pipeline later : Pipeline}

theorem version_eq_containers_iff :
    pipeline.version = .containers ↔
      pipeline.resources ≠ .empty ∨ ∃ step ∈ pipeline.steps, step.usesContainer = true := by
  rw [version, ← List.any_eq_true, ne_eq, ← OrderedMap.isEmpty_iff]
  cases pipeline.resources.isEmpty <;> cases pipeline.steps.any Step.usesContainer <;> simp

theorem version_eq_plain_iff :
    pipeline.version = .plain ↔ pipeline.project.resources = .empty ∧
      ∀ entry ∈ pipeline.project.tasks, entry.container = none ∧ entry.mounts = [] := by
  have hplain : pipeline.version = .plain ↔ pipeline.version ≠ .containers := by
    cases pipeline.version <;> simp
  have hentries : (∀ step ∈ pipeline.steps, step.usesContainer = false) ↔
      ∀ entry ∈ pipeline.project.tasks, entry.container = none ∧ entry.mounts = [] := by
    simp only [project, List.forall_mem_map, ← Step.usesContainer_eq_false_iff]
  rw [hplain, ne_eq, version_eq_containers_iff, resources_project, ← hentries]
  simp

/-- A resource stays registered, and a container or a mount stays with its task. -/
theorem Extends.version (h : pipeline.Extends later)
    (hfilled : ∀ step ∈ pipeline.steps, step.Filled) (hversion : pipeline.version = .containers) :
    later.version = .containers := by
  rw [version_eq_containers_iff] at hversion ⊢
  rcases hversion with hresources | ⟨step, hstep, huses⟩
  · left
    rw [ne_eq, ← OrderedMap.keys_eq_nil_iff] at hresources ⊢
    intro hnil
    exact hresources (List.prefix_nil.mp (hnil ▸ h.resources.keys))
  · right
    obtain ⟨place, hplace⟩ := List.mem_iff_getElem?.mp hstep
    obtain ⟨next, hnext, hextends⟩ := h.steps place step hplace
    exact ⟨next, List.mem_of_getElem? hnext, hextends.usesContainer (hfilled step hstep) huses⟩

/-! ## Documents -/

theorem word_version_eq_one_iff {version : DocumentVersion} :
    Vocabulary.word version = "1" ↔ version = .plain := by
  cases version <;> decide

theorem word_version_eq_two_iff {version : DocumentVersion} :
    Vocabulary.word version = "2" ↔ version = .containers := by
  cases version <;> decide

/-- The version of a document says exactly whether it has a resource, or a task with a container or
a mount; the document has the whole registry; and once the version is two, every later document of
the pipeline has version two. -/
theorem version_tells_containers (h : pipeline.Reachable) {document : Document}
    (hdocument : pipeline.document = .ok document) :
    (Vocabulary.word document.version = "1" ↔ document.resources = .empty ∧
      ∀ task ∈ document.tasks, task.container = none ∧ task.mounts = []) ∧
    document.resources = pipeline.resources ∧
    ∀ {α : Type} {computation : Build α}, computation.Composed →
      ∀ other, (computation.perform pipeline).2.document = .ok other →
        Vocabulary.word document.version = "2" → Vocabulary.word other.version = "2" := by
  obtain ⟨-, rfl⟩ := document_eq_ok_iff.mp hdocument
  refine ⟨?_, resources_project pipeline, ?_⟩
  · rw [word_version_eq_one_iff]
    exact version_eq_plain_iff
  · intro α computation hcomposed other hother htwo
    obtain ⟨-, rfl⟩ := document_eq_ok_iff.mp hother
    rw [word_version_eq_two_iff] at htwo ⊢
    exact (hcomposed.extends pipeline).version (h.each kept_filled).steps htwo

/-- A task whose container comes from a template only, which then takes over another template
without a container: the version is two before and after. -/
theorem version_two_of_template :
    let pipeline := (withDefaults none).afterCalls
      [.addTemplate "rust", .setTemplate "rust" (.container "rust:1"), .addTemplate "plain",
        .addTask "build", .setTask 0 (.run "make"), .setTask 0 (.template "rust")]
    let computation := (Request.reopenTask "build" (.template "plain")).answer
    let later := (computation.perform pipeline).2
    pipeline.Reachable ∧ pipeline.document = .ok pipeline.project ∧
      later.document = .ok later.project ∧ pipeline.project.resources = .empty ∧
      Vocabulary.word pipeline.project.version ≠ "1" ∧
      Vocabulary.word later.project.version = "2" := by
  intro pipeline computation later
  have hreachable : pipeline.Reachable := (Reachable.start none).afterCalls _
  have hdocument : pipeline.document = .ok pipeline.project := by decide +kernel
  have hlater : later.document = .ok later.project := by decide +kernel
  have htwo : Vocabulary.word pipeline.project.version = "2" := by decide +kernel
  have hnothing : pipeline.resources = .empty := by decide +kernel
  have hcontainer : ∃ task ∈ pipeline.project.tasks, task.container = some "rust:1" := by
    decide +kernel
  obtain ⟨hexact, hresources, hstays⟩ := version_tells_containers hreachable hdocument
  refine ⟨hreachable, hdocument, hlater, hresources.trans hnothing, fun hone => ?_,
    hstays (.request _) _ hlater htwo⟩
  obtain ⟨task, htask, himage⟩ := hcontainer
  rw [((hexact.mp hone).2 task htask).1] at himage
  cases himage

end Pipeline

end CiPipeline
