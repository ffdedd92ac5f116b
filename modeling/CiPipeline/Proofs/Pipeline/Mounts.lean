import CiPipeline.Proofs.Pipeline.Call
import CiPipeline.Proofs.Pipeline.Projection
import CiPipeline.Proofs.Pipeline.Registry
import CiPipeline.Proofs.Pipeline.Setting

/-!
# Mounts and their resources

Every mount of a task or a template is backed by the registry of its pipeline, from the call that
makes it on, and the document of a pipeline has the whole registry. Main statement: no mount of a
document dangles, whichever pipelines the directories and caches came from.
-/

namespace CiPipeline

open Registry

/-! ## What settings register -/

theorem isAbsolute_iff {path : String} :
    isAbsolute path = true ↔ path.toList.head? = some '/' := by
  rw [isAbsolute, beq_iff_eq]

namespace TaskSetting

theorem grows_registerIn {registry : Registry} (h : Sound registry) (setting : TaskSetting) :
    Grows registry (setting.registerIn registry) := by
  unfold registerIn
  split
  · exact h.grows_addDirectory _ _
  · exact h.grows_addCache _
  · exact h.grows_addDirectory _ _
  · exact h.grows_addDirectory _ _
  · exact h.grows_refl

/-- What a setting mounts it registers. -/
theorem backs_registerIn {registry : Registry} (h : Sound registry) {setting : TaskSetting}
    {mount : Mount} (hmount : setting.mount? = some mount)
    (habsolute : isAbsolute mount.path = true) : Backs (setting.registerIn registry) mount := by
  rw [isAbsolute_iff] at habsolute
  unfold mount? at hmount
  split at hmount
  · cases hmount
    exact backs_directory h _ _ habsolute
  · cases hmount
    exact backs_cache h _ habsolute
  · cases hmount
    exact backs_directory h _ _ habsolute
  · cases hmount
    exact backs_directory h _ _ habsolute
  · cases hmount

end TaskSetting

namespace TemplateSetting

theorem grows_registerIn {registry : Registry} (h : Sound registry) (setting : TemplateSetting) :
    Grows registry (setting.registerIn registry) := by
  unfold registerIn
  split
  · exact h.grows_addDirectory _ _
  · exact h.grows_addCache _
  · exact h.grows_refl

theorem backs_registerIn {registry : Registry} (h : Sound registry) {setting : TemplateSetting}
    {mount : Mount} (hmount : setting.mount? = some mount)
    (habsolute : isAbsolute mount.path = true) : Backs (setting.registerIn registry) mount := by
  rw [isAbsolute_iff] at habsolute
  unfold mount? at hmount
  split at hmount
  · cases hmount
    exact backs_directory h _ _ habsolute
  · cases hmount
    exact backs_cache h _ habsolute
  · cases hmount

end TemplateSetting

/-! ## What every change keeps -/

/-- Every mount of the list is backed. -/
def BacksAll (registry : Registry) (mounts : List Mount) : Prop :=
  ∀ mount ∈ mounts, Backs registry mount

theorem BacksAll.mono {registry later : Registry} {mounts : List Mount}
    (h : BacksAll registry mounts) (hwithin : Within registry later) : BacksAll later mounts :=
  fun mount hmount => (h mount hmount).mono hwithin

namespace Pipeline

/-- The registry is sound, and it backs the mounts of all steps and templates. -/
structure Provisioned (pipeline : Pipeline) : Prop where
  sound : Sound pipeline.resources
  steps : ∀ step ∈ pipeline.steps, BacksAll pipeline.resources step.settings.mounts
  templates : ∀ name template, pipeline.templates.get? name = some template →
    BacksAll pipeline.resources template.mounts

variable {pipeline : Pipeline}

theorem Provisioned.register (h : pipeline.Provisioned) {resources : Registry}
    (hgrows : Grows pipeline.resources resources) : Provisioned { pipeline with resources } where
  sound := hgrows.sound
  steps step hstep := (h.steps step hstep).mono hgrows.within
  templates name template htemplate := (h.templates name template htemplate).mono hgrows.within

theorem Provisioned.putStep (h : pipeline.Provisioned) (place : Nat) {step : Step}
    (hstep : BacksAll pipeline.resources step.settings.mounts) :
    (pipeline.putStep place step).Provisioned where
  sound := h.sound
  steps other hother := by
    rcases List.mem_or_eq_of_mem_set hother with hold | rfl
    · exact h.steps other hold
    · exact hstep
  templates := h.templates

theorem Provisioned.withStep (h : pipeline.Provisioned) {step : Step}
    (hstep : BacksAll pipeline.resources step.settings.mounts) :
    (pipeline.withStep step).Provisioned where
  sound := h.sound
  steps other hother := by
    rcases List.mem_append.mp hother with hold | hnew
    · exact h.steps other hold
    · rwa [List.mem_singleton.mp hnew]
  templates := h.templates

theorem Provisioned.putTemplate (h : pipeline.Provisioned) (name : String) {template : Template}
    (htemplate : BacksAll pipeline.resources template.mounts) :
    Provisioned { pipeline with templates := pipeline.templates.insert name template } where
  sound := h.sound
  steps := h.steps
  templates other found hfound := by
    rw [OrderedMap.get?_insert] at hfound
    by_cases hname : other = name
    · rw [if_pos hname] at hfound
      cases hfound
      exact htemplate
    · rw [if_neg hname] at hfound
      exact h.templates other found hfound

/-- The mounts of a task after a setting are its own, those of a template, or just registered. -/
theorem Provisioned.setTask (h : pipeline.Provisioned) {place : Nat} {step next : Step}
    {task : Task} {setting : TaskSetting} (hstep : pipeline.steps[place]? = some step)
    (htask : step.task? = some task)
    (hset : setting.apply pipeline.templates step task = .ok next) :
    Provisioned { pipeline.putStep place next with
      resources := setting.registerIn pipeline.resources } := by
  have happlied := TaskSetting.applied htask hset
  have hregistered : Provisioned { pipeline with
      resources := setting.registerIn pipeline.resources } :=
    h.register (setting.grows_registerIn h.sound)
  refine hregistered.putStep place fun mount hmount => ?_
  obtain ⟨-, hsettings⟩ := Step.task?_eq_some_iff.mp htask
  obtain ⟨-, hnext⟩ := Step.task?_eq_some_iff.mp happlied.task_eq
  rw [hnext, happlied.mounts_eq, List.mem_append, List.mem_append, Option.mem_toList] at hmount
  rcases hmount with (htemplate | hown) | hnew
  · cases setting with
    | template name =>
        rw [TaskSetting.templateMounts] at htemplate
        cases hfound : pipeline.templates.get? name with
        | none => simp [hfound] at htemplate
        | some template =>
            rw [hfound] at htemplate
            exact h.templates name template hfound mount htemplate
    | _ => cases htemplate
  · rw [← hsettings] at hown
    exact hregistered.steps step (List.mem_of_getElem? hstep) mount hown
  · exact TaskSetting.backs_registerIn h.sound hnew (happlied.absolute mount hnew)

theorem Provisioned.setTemplate (h : pipeline.Provisioned) {name : String}
    {template next : Template} {setting : TemplateSetting}
    (htemplate : pipeline.templates.get? name = some template)
    (hset : setting.apply name template = .ok next) :
    Provisioned { pipeline with
      templates := pipeline.templates.insert name next
      resources := setting.registerIn pipeline.resources } := by
  have happlied := TemplateSetting.applied hset
  have hregistered : Provisioned { pipeline with
      resources := setting.registerIn pipeline.resources } :=
    h.register (setting.grows_registerIn h.sound)
  refine hregistered.putTemplate name fun mount hmount => ?_
  rw [happlied.mounts_eq, List.mem_append, Option.mem_toList] at hmount
  rcases hmount with hown | hnew
  · exact hregistered.templates name template htemplate mount hown
  · exact TemplateSetting.backs_registerIn h.sound hnew (happlied.absolute mount hnew)

theorem Provisioned.change {next : Pipeline} (h : pipeline.Provisioned)
    (hchange : pipeline.Change next) : next.Provisioned := by
  cases hchange with
  | none => exact h
  | @step step _ _ hnew =>
      have hunset : step.settings = .unset := by rcases hnew with hnew | hnew <;> rw [hnew] <;> rfl
      refine h.withStep ?_
      rw [hunset]
      simp [BacksAll, Task.unset]
  | template => exact h.putTemplate _ (by simp [BacksAll, Template.unset])
  | directory directory globs =>
      exact h.register (h.sound.grows_addDirectory directory globs)
  | cache cache => exact h.register (h.sound.grows_addCache cache)
  | setTask setting hstep htask hset => exact h.setTask hstep htask hset
  | setGate setting hstep hgate hset =>
      refine h.putStep _ ?_
      rw [(GateSetting.applied hset).settings_eq]
      exact h.steps _ (List.mem_of_getElem? hstep)
  | setTemplate setting htemplate hset => exact h.setTemplate htemplate hset
  | chain stages =>
      refine holds_link (fun dependencies h hstep => ?_) [] _ h
      refine h.putStep _ ?_
      rw [Step.settings_addDependencies]
      exact h.steps _ (List.mem_of_getElem? hstep)

theorem Reachable.provisioned (h : pipeline.Reachable) : pipeline.Provisioned :=
  h.invariant
    (fun defaults =>
      { sound := sound_empty
        steps := by simp [withDefaults, empty]
        templates := by simp [withDefaults, empty] })
    Provisioned.change

end Pipeline

/-! ## Documents -/

/-- The mount is at an absolute path, and the document has its resource with its kind: a directory
whose id is the prefix with its path, or a cache whose id is its name. -/
def Document.Provides (document : Document) (mount : Mount) : Prop :=
  mount.path.toList.head? = some '/' ∧
    match mount.kind with
    | .directory => ∃ path globs,
        document.resources.get? mount.resource = some (.directory path globs) ∧
          mount.resource = "src:" ++ path
    | .cache => document.resources.get? mount.resource = some (.cache mount.resource)

theorem Document.provides_of_backs {document : Document} (hsound : Sound document.resources)
    {mount : Mount} (h : Backs document.resources mount) : document.Provides mount := by
  obtain ⟨resource, hfound, hkind⟩ := h.registered
  have hresource := hsound _ _ hfound
  refine ⟨h.absolute, ?_⟩
  cases resource with
  | directory path globs =>
      obtain ⟨directory, rfl, hid⟩ := hresource
      rw [← hkind]
      exact ⟨directory.path, globs, hfound, hid.symm⟩
  | cache name =>
      obtain ⟨cache, rfl, hid⟩ := hresource
      rw [← hkind]
      have hname : cache.name = mount.resource := hid
      rwa [hname] at hfound

namespace Pipeline

theorem Reachable.provides {pipeline : Pipeline} (h : pipeline.Reachable) {document : Document}
    (hdocument : pipeline.document = .ok document) :
    ∀ task ∈ document.tasks, ∀ mount ∈ task.mounts, document.Provides mount := by
  obtain ⟨-, rfl⟩ := document_eq_ok_iff.mp hdocument
  have hprovisioned := h.provisioned
  intro entry hentry mount hmount
  obtain ⟨step, hstep, rfl⟩ := mem_tasks_project.mp hentry
  have hbacks : Backs pipeline.resources mount := hprovisioned.steps step hstep mount hmount
  apply Document.provides_of_backs
  · rw [resources_project]
    exact hprovisioned.sound
  · rwa [resources_project]

/-- No mount of a document dangles, however many pipelines were built side by side and wherever
the mounted directories and caches came from. And no id is that of a directory in one pipeline and
that of a cache in the same or another one. -/
theorem mounts_never_dangle (moves : List Move) :
    (∀ pipeline ∈ workspace moves, ∀ document, pipeline.document = .ok document →
      ∀ task ∈ document.tasks, ∀ mount ∈ task.mounts, document.Provides mount) ∧
    ∀ others : List Move, ∀ pipeline ∈ workspace moves, ∀ other ∈ workspace others,
      ∀ id resource found, pipeline.resources.get? id = some resource →
        other.resources.get? id = some found → resource.kind = found.kind := by
  refine ⟨fun pipeline hpipeline document hdocument => ?_, ?_⟩
  · exact (reachable_of_mem_workspace pipeline hpipeline).provides hdocument
  · intro others pipeline hpipeline other hother id resource found hresource hfound
    have hsound := (reachable_of_mem_workspace pipeline hpipeline).provisioned.sound
    have hother := (reachable_of_mem_workspace other hother).provisioned.sound
    exact (hsound id resource hresource).kind_eq (hother id found hfound)

/-- A directory of one pipeline is mounted in another one, of which a copy is made. -/
theorem mounts_of_shared_directory :
    let lib : Directory := ⟨"lib", by decide⟩
    let moves : List Move := [.start none, .perform 0 (.addDirectory "lib" ["*.rs"]), .start none,
      .perform 1 (.addTask "make"), .perform 1 (.setTask 0 (.run "make")),
      .perform 1 (.setTask 0 (.mount lib "/lib")), .copy 1]
    let copy := (workspace moves).getD 2 .empty
    copy ∈ workspace moves ∧ copy.document = .ok copy.project ∧
      copy.project.tasks.map TaskEntry.mounts = [[⟨"src:lib", "/lib", .directory⟩]] ∧
      ∀ task ∈ copy.project.tasks, ∀ mount ∈ task.mounts, copy.project.Provides mount := by
  intro lib moves copy
  have hcopy : copy ∈ workspace moves := by decide +kernel
  have hdocument : copy.document = .ok copy.project := by decide +kernel
  have hmounts : copy.project.tasks.map TaskEntry.mounts = [[⟨"src:lib", "/lib", .directory⟩]] := by
    decide +kernel
  exact ⟨hcopy, hdocument, hmounts, (mounts_never_dangle moves).1 copy hcopy _ hdocument⟩

end Pipeline

end CiPipeline
