import CiPipeline.Proofs.Pipeline.Session

/-!
# Pipelines only grow

What a pipeline has it keeps. Steps, dependencies, mounts, variables and resources are added behind
or around those that are there, and a step stays the task or the gate that it is. Main statement:
this holds of everything that is put together from calls, whether it is refused or not.
-/

namespace CiPipeline

/-! ## Resources -/

theorem isPrefix_addNew [BEq α] (known more : List α) : known <+: addNew known more := by
  induction more generalizing known with
  | nil => exact List.prefix_refl known
  | cons item more ih =>
      change known <+: addNew (if known.contains item then known else known ++ [item]) more
      split
      · exact ih known
      · exact (List.prefix_append known [item]).trans (ih (known ++ [item]))

/-- The same resource, to which globs may have been added. -/
inductive Resource.Extends : Resource → Resource → Prop where
  | directory (path : String) {globs more : List String} (h : globs <+: more) :
      Extends (.directory path globs) (.directory path more)
  | cache (name : String) : Extends (.cache name) (.cache name)

namespace Resource

theorem Extends.refl (resource : Resource) : resource.Extends resource := by
  cases resource with
  | directory path globs => exact .directory path (List.prefix_refl globs)
  | cache name => exact .cache name

theorem Extends.trans {resource later last : Resource} (h : resource.Extends later)
    (hlater : later.Extends last) : resource.Extends last := by
  cases h with
  | directory path hglobs =>
      cases hlater with
      | directory _ hmore => exact .directory path (hglobs.trans hmore)
  | cache name => exact hlater

end Resource

namespace Registry

/-- What is registered first is registered later, at the same place and as the same resource. -/
structure Extends (registry later : Registry) : Prop where
  keys : registry.keys <+: later.keys
  resources : ∀ id resource, registry.get? id = some resource →
    ∃ other, later.get? id = some other ∧ resource.Extends other

theorem Extends.refl (registry : Registry) : Extends registry registry where
  keys := List.prefix_refl _
  resources _ resource hfound := ⟨resource, hfound, .refl resource⟩

theorem Extends.trans {registry later last : Registry} (h : Extends registry later)
    (hlater : Extends later last) : Extends registry last where
  keys := h.keys.trans hlater.keys
  resources id resource hfound := by
    obtain ⟨other, hother, hextends⟩ := h.resources id resource hfound
    obtain ⟨final, hfinal, hmore⟩ := hlater.resources id other hother
    exact ⟨final, hfinal, hextends.trans hmore⟩

/-- A resource may be written under an id if it extends the one that is there. -/
theorem extends_insert {registry : Registry} {id : String} {resource : Resource}
    (h : ∀ known, registry.get? id = some known → known.Extends resource) :
    Extends registry (registry.insert id resource) where
  keys := by
    rw [OrderedMap.keys_insert]
    split
    · exact List.prefix_refl _
    · exact List.prefix_append _ _
  resources other known hknown := by
    rw [OrderedMap.get?_insert]
    by_cases hid : other = id
    · subst hid
      exact ⟨resource, if_pos rfl, h known hknown⟩
    · exact ⟨known, by rwa [if_neg hid], .refl known⟩

theorem extends_addDirectory (registry : Registry) (directory : Directory) (globs : List String) :
    Extends registry (addDirectory registry directory globs) := by
  rw [addDirectory]
  cases hfound : registry.get? directory.id with
  | none =>
      refine extends_insert fun known hknown => ?_
      rw [hfound] at hknown
      cases hknown
  | some resource =>
      cases resource with
      | directory path known =>
          refine extends_insert fun old hold => ?_
          rw [hfound] at hold
          cases hold
          exact .directory path (isPrefix_addNew known globs)
      | cache name => exact .refl registry

theorem extends_addCache (registry : Registry) (cache : Cache) :
    Extends registry (addCache registry cache) := by
  rw [addCache]
  split
  · exact .refl registry
  · rename_i hfree
    refine extends_insert fun known hknown => ?_
    rw [OrderedMap.contains_eq_isSome, hknown] at hfree
    exact absurd rfl hfree

end Registry

/-! ## Steps -/

/-- A task that keeps its mounts in their order, all variables, and that it runs in an image. -/
structure Task.Extends (task later : Task) : Prop where
  mounts : task.mounts.Sublist later.mounts
  env : task.env.keys ⊆ later.env.keys
  container : isBare later.container = true → isBare task.container = true

/-- A step of the same name and the same kind that has all the dependencies in front of others. -/
structure Step.Extends (step later : Step) : Prop where
  name_eq : later.name = step.name
  isGate_eq : later.isGate = step.isGate
  dependencies : step.dependencies <+: later.dependencies
  settings : step.settings.Extends later.settings

theorem Task.Extends.refl (task : Task) : task.Extends task :=
  ⟨List.Sublist.refl _, List.Subset.refl _, id⟩

theorem Task.Extends.trans {task later last : Task} (h : task.Extends later)
    (hlater : later.Extends last) : task.Extends last where
  mounts := h.mounts.trans hlater.mounts
  env := List.Subset.trans h.env hlater.env
  container hbare := h.container (hlater.container hbare)

namespace Step

theorem isPrefix_addDependency (step : Step) (name : String) :
    step.dependencies <+: (step.addDependency name).dependencies := by
  rw [addDependency]
  split
  · exact List.prefix_refl _
  · exact List.prefix_append _ _

theorem isPrefix_addDependencies (step : Step) (names : List String) :
    step.dependencies <+: (step.addDependencies names).dependencies := by
  induction names generalizing step with
  | nil => exact List.prefix_refl _
  | cons name names ih => exact (step.isPrefix_addDependency name).trans (ih _)

theorem Extends.refl (step : Step) : step.Extends step where
  name_eq := rfl
  isGate_eq := rfl
  dependencies := List.prefix_refl _
  settings := .refl _

theorem Extends.trans {step later last : Step} (h : step.Extends later)
    (hlater : later.Extends last) : step.Extends last where
  name_eq := hlater.name_eq.trans h.name_eq
  isGate_eq := hlater.isGate_eq.trans h.isGate_eq
  dependencies := h.dependencies.trans hlater.dependencies
  settings := h.settings.trans hlater.settings

theorem extends_addDependencies (step : Step) (names : List String) :
    step.Extends (step.addDependencies names) where
  name_eq := name_addDependencies step names
  isGate_eq := by rw [isGate, gate?_addDependencies, isGate]
  dependencies := step.isPrefix_addDependencies names
  settings := by
    rw [settings_addDependencies]
    exact .refl _

theorem Extends.task {step later : Step} (h : step.Extends later) {task : Task}
    (htask : step.task? = some task) : ∃ set, later.task? = some set ∧ task.Extends set := by
  rw [task?] at htask
  split at htask
  · cases htask
  · rename_i hkind
    cases htask
    exact ⟨later.settings, by rw [task?, h.isGate_eq, if_neg hkind], h.settings⟩

theorem Extends.gate {step later : Step} (h : step.Extends later) {gate : Gate}
    (hgate : step.gate? = some gate) : ∃ set, later.gate? = some set := by
  have hkind : later.isGate = true := by rw [h.isGate_eq, isGate, hgate, Option.isSome_some]
  exact Option.isSome_iff_exists.mp hkind

end Step

/-! ## Settings -/

theorem isBare_some {text : String} : isBare (some text) = true ↔ text = "" := by
  simp [isBare]

theorem Task.extends_takeOver (task : Task) (template : Template) :
    task.Extends (task.takeOver template) where
  mounts := List.sublist_append_right _ _
  env key hkey := OrderedMap.mem_keys_extend.mpr (.inr hkey)
  container hbare := by
    by_cases htask : isBare task.container = true
    · exact htask
    · rwa [takeOver, if_neg htask] at hbare

namespace TaskSetting

theorem mounts_sublist_change (templates : OrderedMap Template) (task : Task)
    (setting : TaskSetting) : task.mounts.Sublist (setting.change templates task).mounts := by
  rw [mounts_change]
  exact (List.sublist_append_right _ _).trans (List.sublist_append_left _ _)

/-- A setting that passed its checks replaces nothing by less. -/
theorem extends_change {templates : OrderedMap Template} {step next : Step} {task : Task}
    {setting : TaskSetting} (h : setting.apply templates step task = .ok next) :
    task.Extends (setting.change templates task) := by
  have hmounts := mounts_sublist_change templates task setting
  cases setting with
  | container image =>
      have himage : image ≠ "" := by
        rintro rfl
        cases h
      exact ⟨hmounts, List.Subset.refl _, fun hbare => absurd (isBare_some.mp hbare) himage⟩
  | env key value =>
      exact ⟨hmounts, fun other hother => OrderedMap.mem_keys_insert.mpr (.inl hother), id⟩
  | template name =>
      rw [change]
      cases templates.get? name with
      | none => exact .refl task
      | some found => exact task.extends_takeOver found
  | _ => exact ⟨hmounts, List.Subset.refl _, id⟩

theorem Applied.extends {templates : OrderedMap Template} {step next : Step} {task set : Task}
    {setting : TaskSetting} (h : Applied templates step task setting next set)
    (htask : step.task? = some task) (hextends : task.Extends set) : step.Extends next := by
  obtain ⟨hgate, hsettings⟩ := Step.task?_eq_some_iff.mp htask
  obtain ⟨hnext, hset⟩ := Step.task?_eq_some_iff.mp h.task_eq
  constructor
  case name_eq => exact h.name_eq
  case isGate_eq => rw [Step.isGate, Step.isGate, hnext, hgate]
  case dependencies => exact h.dependencies_eq ▸ step.isPrefix_addDependencies setting.requests
  case settings => rwa [hsettings, hset]

theorem extends_registerIn (registry : Registry) (setting : TaskSetting) :
    Registry.Extends registry (setting.registerIn registry) := by
  unfold registerIn
  split
  · exact Registry.extends_addDirectory registry _ _
  · exact Registry.extends_addCache registry _
  · exact Registry.extends_addDirectory registry _ _
  · exact Registry.extends_addDirectory registry _ _
  · exact .refl registry

end TaskSetting

theorem GateSetting.Applied.extends {step next : Step} {gate set : Gate} {setting : GateSetting}
    (h : Applied step setting next set) (hgate : step.gate? = some gate) : step.Extends next where
  name_eq := h.name_eq
  isGate_eq := by
    rw [Step.isGate, Step.isGate, h.gate_eq, hgate]
    rfl
  dependencies := h.dependencies_eq ▸ step.isPrefix_addDependencies setting.requests
  settings := by
    rw [h.settings_eq]
    exact .refl _

theorem TemplateSetting.extends_registerIn (registry : Registry) (setting : TemplateSetting) :
    Registry.Extends registry (setting.registerIn registry) := by
  unfold registerIn
  split
  · exact Registry.extends_addDirectory registry _ _
  · exact Registry.extends_addCache registry _
  · exact .refl registry

/-! ## Calls -/

namespace Pipeline

/-- Every step is still at its place, and every resource under its id, with all that it had. -/
structure Extends (pipeline later : Pipeline) : Prop where
  steps : ∀ (place : Nat) (step : Step), pipeline.steps[place]? = some step →
    ∃ next, later.steps[place]? = some next ∧ step.Extends next
  resources : Registry.Extends pipeline.resources later.resources

variable {pipeline later : Pipeline}

theorem Extends.refl (pipeline : Pipeline) : pipeline.Extends pipeline where
  steps _ step hstep := ⟨step, hstep, .refl step⟩
  resources := .refl _

theorem Extends.trans {last : Pipeline} (h : pipeline.Extends later)
    (hlater : later.Extends last) : pipeline.Extends last where
  steps place step hstep := by
    obtain ⟨next, hnext, hextends⟩ := h.steps place step hstep
    obtain ⟨final, hfinal, hmore⟩ := hlater.steps place next hnext
    exact ⟨final, hfinal, hextends.trans hmore⟩
  resources := h.resources.trans hlater.resources

theorem extends_withStep (pipeline : Pipeline) (step : Step) :
    pipeline.Extends (pipeline.withStep step) where
  steps place old hold := by
    obtain ⟨hlt, -⟩ := List.getElem?_eq_some_iff.mp hold
    exact ⟨old, by rw [withStep, List.getElem?_append_left hlt, hold], .refl old⟩
  resources := .refl _

theorem extends_putStep {place : Nat} {step next : Step}
    (hstep : pipeline.steps[place]? = some step) (hnext : step.Extends next) :
    pipeline.Extends (pipeline.putStep place next) where
  steps other old hold := by
    rw [putStep]
    by_cases hplace : other = place
    · subst hplace
      rw [hstep] at hold
      cases hold
      obtain ⟨hlt, -⟩ := List.getElem?_eq_some_iff.mp hstep
      exact ⟨next, List.getElem?_set_self hlt, hnext⟩
    · exact ⟨old, by rw [List.getElem?_set_ne (Ne.symm hplace), hold], .refl old⟩
  resources := .refl _

theorem Extends.register (h : pipeline.Extends later) {resources : Registry}
    (hresources : Registry.Extends later.resources resources) :
    pipeline.Extends { later with resources } where
  steps := h.steps
  resources := h.resources.trans hresources

theorem Change.extends (h : pipeline.Change later) : pipeline.Extends later := by
  cases h with
  | none => exact .refl pipeline
  | step => exact extends_withStep pipeline _
  | template => exact ⟨(Extends.refl pipeline).steps, .refl _⟩
  | directory directory globs =>
      exact (Extends.refl pipeline).register (Registry.extends_addDirectory _ directory globs)
  | cache cache => exact (Extends.refl pipeline).register (Registry.extends_addCache _ cache)
  | setTask setting hstep htask hset =>
      have hnext := (TaskSetting.applied htask hset).extends htask
        (TaskSetting.extends_change hset)
      exact (extends_putStep hstep hnext).register (setting.extends_registerIn _)
  | setGate setting hstep hgate hset =>
      exact extends_putStep hstep ((GateSetting.applied hset).extends hgate)
  | setTemplate setting htemplate hset =>
      exact ⟨(Extends.refl pipeline).steps, setting.extends_registerIn _⟩
  | chain stages =>
      refine holds_link (fun dependencies h hstep => ?_) [] _ (Extends.refl pipeline)
      exact h.trans (extends_putStep hstep (Step.extends_addDependencies _ dependencies))

theorem outlastsCalls_extends (pipeline : Pipeline) : OutlastsCalls pipeline.Extends :=
  outlastsCalls_of_change fun hextends hchange => hextends.trans hchange.extends

end Pipeline

theorem Build.Composed.extends {α : Type} {computation : Build α} (h : computation.Composed)
    (pipeline : Pipeline) : pipeline.Extends (computation.perform pipeline).2 :=
  h.keeps (Pipeline.outlastsCalls_extends pipeline) pipeline (.refl pipeline)

/-! ## What is there stays -/

namespace Pipeline

/-- Whatever is done with a pipeline by calls, refused or not: the names stay in front, each step
keeps its dependencies in front of new ones, its mounts in their order and all its variables, and
each resource keeps its place, its path or name, and its globs in front of new ones. -/
theorem append_only (pipeline : Pipeline) {α : Type} {computation : Build α}
    (h : computation.Composed) :
    let later := (computation.perform pipeline).2
    pipeline.names <+: later.names ∧
      (∀ (place : Nat) (step : Step), pipeline.steps[place]? = some step →
        ∃ next, later.steps[place]? = some next ∧ next.name = step.name ∧
          step.dependencies <+: next.dependencies ∧
          ∀ task, step.task? = some task → ∃ set, next.task? = some set ∧
            task.mounts.Sublist set.mounts ∧ task.env.keys ⊆ set.env.keys) ∧
      pipeline.resources.keys <+: later.resources.keys ∧
      ∀ id resource, pipeline.resources.get? id = some resource →
        ∃ other, later.resources.get? id = some other ∧ resource.Extends other := by
  intro later
  have hlater : pipeline.Extends later := h.extends pipeline
  refine ⟨h.names_grow pipeline, fun place step hstep => ?_, hlater.resources.keys,
    hlater.resources.resources⟩
  obtain ⟨next, hnext, hextends⟩ := hlater.steps place step hstep
  refine ⟨next, hnext, hextends.name_eq, hextends.dependencies, fun task htask => ?_⟩
  obtain ⟨set, hset, hmore⟩ := hextends.task htask
  exact ⟨set, hset, hmore.mounts, hmore.env⟩

/-- A task takes over a template and comes behind another one in a chain, its directory gets another
glob, and then a name is refused. -/
theorem append_only_of_template :
    let src : Directory := ⟨"src", by decide⟩
    let pipeline := (withDefaults none).afterCalls
      [.addTemplate "rust", .setTemplate "rust" (.env "HOME" "/root"),
        .setTemplate "rust" (.mount src "/src"), .addDirectory "src" ["*.rs"], .addTask "build",
        .setTask 0 (.env "CI" "1"), .setTask 0 .mountCurrent, .addTask "fetch"]
    let computation : Build Answer := do
      let _ ← (Request.reopenTask "build" (.template "rust")).answer
      let _ ← (Request.chain [.task "fetch", .task "build"]).answer
      let _ ← (Request.addDirectory "src" ["*.toml"]).answer
      (Request.addTask "build").answer
    let later := (computation.perform pipeline).2
    (computation.perform pipeline).1 = .error (.duplicateTask "build") ∧
      pipeline.names <+: later.names ∧
      later.resources.toList = [("src:src", .directory "src" ["*.rs", "*.toml"]),
        ("src:.", .directory "." [])] ∧
      ∃ next set, later.steps[0]? = some next ∧ next.name = "build" ∧ next.task? = some set ∧
        [⟨"src:.", "/work", .directory⟩].Sublist set.mounts ∧ "CI" ∈ set.env.keys := by
  intro src pipeline computation later
  have hcomposed : computation.Composed :=
    .bind (.request _) fun _ => .bind (.request _) fun _ => .bind (.request _) fun _ => .request _
  have hrefused : (computation.perform pipeline).1 = .error (.duplicateTask "build") := by
    decide +kernel
  have hresources : later.resources.toList = [("src:src", .directory "src" ["*.rs", "*.toml"]),
      ("src:.", .directory "." [])] := by decide +kernel
  have hbuild : ∃ step ∈ pipeline.steps[0]?, step.name = "build" ∧ ∃ task ∈ step.task?,
      task.mounts = [⟨"src:.", "/work", .directory⟩] ∧ task.env.keys = ["CI"] := by
    decide +kernel
  obtain ⟨step, hstep, hname, task, htask, hmounts, henv⟩ := hbuild
  obtain ⟨hnames, hsteps, -, -⟩ := pipeline.append_only hcomposed
  obtain ⟨next, hnext, hsame, -, hkept⟩ := hsteps 0 step hstep
  obtain ⟨set, hset, hsublist, hkeys⟩ := hkept task htask
  refine ⟨hrefused, hnames, hresources, next, set, hnext, hsame.trans hname, hset, ?_, ?_⟩
  · exact hmounts ▸ hsublist
  · exact hkeys (henv ▸ List.mem_singleton_self "CI")

end Pipeline

end CiPipeline
