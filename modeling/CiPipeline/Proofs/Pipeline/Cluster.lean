import CiPipeline.Proofs.Pipeline.Amounts
import CiPipeline.Proofs.Pipeline.TaskAt

/-!
# Own cluster settings and defaults

A step asks the cluster for what was set on it, or for the amounts of the defaults if nothing was,
and never for a part of both. What was set are the last options and the last text passed through,
and it does not matter which of the two came first. Main statement: the request of every step of a
document, in terms of its own settings or of the defaults.
-/

namespace CiPipeline

/-- What was set on a step: its options, and what it passes through in place of theirs. -/
structure OwnCluster where
  options : Option KubernetesOptions
  raw : String
deriving DecidableEq

namespace OwnCluster

/-- A field of the options is set, or something is passed through. -/
def IsSet (own : OwnCluster) : Prop :=
  (∃ options, own.options = some options ∧ options ≠ .unset) ∨ own.raw ≠ ""

/-- The request for what was set. -/
def request (own : OwnCluster) : ClusterRequest :=
  let options := own.options.getD .unset
  ⟨given? options.memory, given? options.cpu, options.gpu,
    (given? own.raw).or (given? options.raw)⟩

/-- What is set after one more setting. -/
def given (own : OwnCluster) : TaskSetting → OwnCluster
  | .cluster options => { own with options := some options }
  | .clusterRaw raw => { own with raw }
  | _ => own

end OwnCluster

/-- The request for the amounts of the defaults, unless none is set. -/
def KubernetesOptions.amountsRequest? (defaults : KubernetesOptions) : Option ClusterRequest :=
  if defaults.memory = "" ∧ defaults.cpu = "" ∧ defaults.gpu = 0 then none
  else some ⟨given? defaults.memory, given? defaults.cpu, defaults.gpu, none⟩

/-- What is asked for: what was set, as it stands, or else the amounts of the defaults. -/
def OwnCluster.Asks (own : OwnCluster) (defaults : Option KubernetesOptions)
    (request? : Option ClusterRequest) : Prop :=
  (own.IsSet → request? = some own.request) ∧
    (¬ own.IsSet → request? = defaults.bind KubernetesOptions.amountsRequest?)

/-- What was set on a task. -/
def Task.own (task : Task) : OwnCluster := ⟨task.cluster, task.clusterRaw⟩

/-! ## Requests -/

theorem given?_eq_none_iff {text : String} : given? text = none ↔ text = "" := by
  rw [given?, nonempty?, Option.filter_eq_none_iff]
  simp

namespace KubernetesOptions

theorem request?_eq (options : KubernetesOptions) :
    options.request? = if options = .unset then none else
      some ⟨given? options.memory, given? options.cpu, options.gpu, given? options.raw⟩ := by
  have hunset : (⟨given? options.memory, given? options.cpu, options.gpu,
      given? options.raw⟩ : ClusterRequest) = .unset ↔ options = .unset := by
    obtain ⟨memory, cpu, gpu, raw⟩ := options
    simp [ClusterRequest.unset, KubernetesOptions.unset, given?_eq_none_iff]
  rw [request?]
  simp only [hunset]

theorem request?_withoutRaw (defaults : KubernetesOptions) :
    defaults.withoutRaw.request? = defaults.amountsRequest? := by
  rw [request?_eq, amountsRequest?]
  obtain ⟨memory, cpu, gpu, raw⟩ := defaults
  simp [withoutRaw, unset, given?_eq_none_iff.mpr]

end KubernetesOptions

theorem KubernetesOptions.isEmpty_iff {options : KubernetesOptions} :
    options.isEmpty = true ↔ options = .unset := by
  obtain ⟨memory, cpu, gpu, raw⟩ := options
  simp [isEmpty, unset, and_assoc]

theorem OwnCluster.request?_override {own : OwnCluster} (h : own.IsSet) :
    ((own.options.getD .unset).override own.raw).request? = some own.request := by
  obtain ⟨options?, raw⟩ := own
  by_cases hraw : raw = ""
  · subst hraw
    obtain ⟨options, hoptions, hset⟩ := h.resolve_right fun hne => hne rfl
    have hsome : options? = some options := hoptions
    subst hsome
    have hoverride : options.override "" = options := rfl
    rw [Option.getD_some, hoverride, KubernetesOptions.request?_eq, if_neg hset]
    rfl
  · have hoverride : (options?.getD .unset).override raw = { options?.getD .unset with raw } :=
      if_neg (by simpa using hraw)
    have hset : { options?.getD .unset with raw } ≠ KubernetesOptions.unset :=
      fun hunset => hraw (congrArg KubernetesOptions.raw hunset)
    have hgiven : given? raw = some raw := given?_eq_some_iff.mpr ⟨rfl, hraw⟩
    rw [hoverride, KubernetesOptions.request?_eq, if_neg hset, OwnCluster.request, hgiven]
    rfl

theorem askedOptions?_of_isSet (defaults : Option KubernetesOptions) {task : Task}
    (h : task.own.IsSet) :
    askedOptions? defaults task =
      some ((task.own.options.getD .unset).override task.own.raw) := by
  rw [askedOptions?, Task.own]
  cases hown : task.ownCluster? with
  | some options =>
      obtain ⟨hoptions, -⟩ := Task.ownCluster?_eq_some_iff.mp hown
      rw [hoptions]
      rfl
  | none =>
      have hunset {options : KubernetesOptions} (hoptions : task.cluster = some options) :
          options = .unset :=
        KubernetesOptions.isEmpty_iff.mp (Task.ownCluster?_eq_none_iff.mp hown options hoptions)
      have hraw : task.clusterRaw ≠ "" := by
        rcases h with ⟨options, hoptions, hset⟩ | hraw
        · exact absurd (hunset hoptions) hset
        · exact hraw
      have hgetD : task.cluster.getD .unset = .unset := by
        cases hoptions : task.cluster with
        | none => rfl
        | some options => exact hunset hoptions
      rw [hgetD]
      exact if_neg (by simpa using hraw)

theorem askedOptions?_of_not_isSet (defaults : Option KubernetesOptions) {task : Task}
    (h : ¬ task.own.IsSet) :
    askedOptions? defaults task = defaults.map KubernetesOptions.withoutRaw := by
  rw [OwnCluster.IsSet, not_or, not_exists, not_not] at h
  obtain ⟨hoptions, hraw⟩ := h
  have hown : task.ownCluster? = none := Task.ownCluster?_eq_none_iff.mpr fun options hsome =>
    KubernetesOptions.isEmpty_iff.mpr (not_not.mp fun hset => hoptions options ⟨hsome, hset⟩)
  have hempty : task.clusterRaw.isEmpty = true := by
    rw [String.isEmpty_iff]
    exact hraw
  rw [askedOptions?, hown]
  exact if_pos hempty

theorem clusterRequest?_of_isSet (defaults : Option KubernetesOptions) {task : Task}
    (h : task.own.IsSet) : clusterRequest? defaults task = some task.own.request := by
  rw [clusterRequest?_eq, askedOptions?_of_isSet defaults h, Option.bind_some,
    OwnCluster.request?_override h]

theorem clusterRequest?_of_not_isSet (defaults : Option KubernetesOptions) {task : Task}
    (h : ¬ task.own.IsSet) :
    clusterRequest? defaults task = defaults.bind KubernetesOptions.amountsRequest? := by
  rw [clusterRequest?_eq, askedOptions?_of_not_isSet defaults h, Option.bind_map]
  congr 1
  funext options
  exact options.request?_withoutRaw

theorem asks_clusterRequest? (defaults : Option KubernetesOptions) (task : Task) :
    task.own.Asks defaults (clusterRequest? defaults task) :=
  ⟨clusterRequest?_of_isSet defaults, clusterRequest?_of_not_isSet defaults⟩

/-! ## Settings one after the other -/

/-- The options that a setting gives. -/
def TaskSetting.clusterOptions? : TaskSetting → Option KubernetesOptions
  | .cluster options => some options
  | _ => none

/-- The text that a setting gives to be passed through. -/
def TaskSetting.clusterText? : TaskSetting → Option String
  | .clusterRaw text => some text
  | _ => none

namespace OwnCluster

/-- What comes of settings: the last options and, apart from them, the last text. -/
def ofSettings (settings : List TaskSetting) : OwnCluster where
  options := (settings.filterMap TaskSetting.clusterOptions?).getLast?
  raw := (settings.filterMap TaskSetting.clusterText?).getLast?.getD ""

theorem foldl_given (settings : List TaskSetting) :
    settings.foldl given Task.unset.own = ofSettings settings := by
  induction settings using List.reverseRecOn with
  | nil => rfl
  | append_singleton settings setting ih =>
      rw [List.foldl_append, List.foldl_cons, List.foldl_nil, ih, ofSettings, ofSettings,
        List.filterMap_append, List.filterMap_append]
      cases setting <;> simp [given, TaskSetting.clusterOptions?, TaskSetting.clusterText?]

end OwnCluster

theorem TaskSetting.own_change (templates : OrderedMap Template) (task : Task)
    (setting : TaskSetting) : (setting.change templates task).own = task.own.given setting := by
  cases setting with
  | template name =>
      rw [change]
      cases templates.get? name <;> rfl
  | _ => rfl

theorem unprepared_own : Unprepared Task.own := by
  intro preset setting hsetting templates task
  rw [TaskSetting.own_change]
  rcases Preset.eq_of_mem_settings hsetting with rfl | rfl | ⟨paths, rfl⟩ <;> rfl

namespace Pipeline

variable {pipeline : Pipeline} {place : Nat}

/-- All settings that the task at the place accepts when the requests are served one after the
other. -/
def acceptedAt (pipeline : Pipeline) (place : Nat) : List Request → List TaskSetting
  | [] => []
  | request :: rest =>
      (request.accepted? pipeline place).toList ++
        (request.answer.perform pipeline).2.acceptedAt place rest

theorem own_serve (pipeline : Pipeline) (place : Nat) (requests : List Request) :
    ((pipeline.serve requests).2.taskAt place).own =
      (pipeline.acceptedAt place requests).foldl OwnCluster.given (pipeline.taskAt place).own := by
  induction requests generalizing pipeline with
  | nil => rfl
  | cons request rest ih =>
      have hstep : ((request.answer.perform pipeline).2.taskAt place).own =
          (request.accepted? pipeline place).toList.foldl OwnCluster.given
            (pipeline.taskAt place).own := by
        rw [Request.read_answer unprepared_own, taskWith]
        cases request.accepted? pipeline place with
        | none => rfl
        | some setting => exact setting.own_change pipeline.templates _
      rw [acceptedAt, List.foldl_append, ← hstep]
      exact ih _

/-! ## Defaults -/

/-- No call changes the defaults. -/
theorem Change.defaults_eq {next : Pipeline} (h : pipeline.Change next) :
    next.defaults = pipeline.defaults := by
  cases h with
  | chain stages =>
      let holds (other : Pipeline) : Prop := other.defaults = pipeline.defaults
      have hput {other : Pipeline} {place : Nat} {step : Step} (names : List String)
          (hother : holds other) (_ : other.steps[place]? = some step) :
          holds (other.putStep place (step.addDependencies names)) := hother
      exact holds_link hput [] _ rfl
  | _ => rfl

theorem defaults_answer (pipeline : Pipeline) (request : Request) :
    (request.answer.perform pipeline).2.defaults = pipeline.defaults := by
  let holds (other : Pipeline) : Prop := other.defaults = pipeline.defaults
  have hcalls : OutlastsCalls holds :=
    outlastsCalls_of_change fun hother hchange => hchange.defaults_eq.trans hother
  exact request.keeps_answer hcalls pipeline rfl

theorem defaults_serve (pipeline : Pipeline) (requests : List Request) :
    (pipeline.serve requests).2.defaults = pipeline.defaults := by
  induction requests generalizing pipeline with
  | nil => rfl
  | cons request rest ih => exact (ih _).trans (defaults_answer pipeline request)

/-! ## Documents -/

theorem getElem?_tasks_project (pipeline : Pipeline) (place : Nat) :
    pipeline.project.tasks[place]? =
      (pipeline.steps[place]?).map (Step.entry pipeline.defaults) := by
  rw [project, List.getElem?_map]

/-- Of what is emitted for a step only the request of the cluster hangs on the defaults. -/
theorem entry_congr {step : Step} {defaults other : Option KubernetesOptions}
    (h : clusterRequest? defaults step.settings = clusterRequest? other step.settings) :
    step.entry defaults = step.entry other := by
  rw [Step.entry, Step.entry, h]

theorem project_congr {defaults : Option KubernetesOptions}
    (h : ∀ step ∈ pipeline.steps, step.entry defaults = step.entry pipeline.defaults) :
    { pipeline with defaults }.project = pipeline.project := by
  have htasks : pipeline.steps.map (Step.entry defaults) =
      pipeline.steps.map (Step.entry pipeline.defaults) := List.map_congr_left h
  rw [project, project, ← htasks]
  rfl

theorem asks_entry {entry : TaskEntry} (h : pipeline.project.tasks[place]? = some entry) :
    (pipeline.taskAt place).own.Asks pipeline.defaults entry.cluster := by
  rw [getElem?_tasks_project] at h
  obtain ⟨step, hstep, rfl⟩ := Option.map_eq_some_iff.mp h
  rw [taskAt_of_step hstep]
  exact asks_clusterRequest? pipeline.defaults step.settings

/-- Defaults that differ in nothing but what is passed through are the same to every step. -/
theorem clusterRequest?_withoutRaw {defaults other : Option KubernetesOptions}
    (h : defaults.map KubernetesOptions.withoutRaw = other.map KubernetesOptions.withoutRaw)
    (task : Task) : clusterRequest? defaults task = clusterRequest? other task := by
  by_cases hset : task.own.IsSet
  · rw [clusterRequest?_of_isSet _ hset, clusterRequest?_of_isSet _ hset]
  · rw [clusterRequest?_eq, askedOptions?_of_not_isSet _ hset, h,
      ← askedOptions?_of_not_isSet _ hset, ← clusterRequest?_eq]

/-- Own settings stand alone. A step with settings of its own is emitted in the same way whatever
the defaults are, and asks for these settings; every other step asks for the amounts of the
defaults, so what these pass through is emitted for no step. After any requests the settings of a
step are the last options and the last text that it accepted, in whatever order those came. -/
theorem own_cluster_settings_stand_alone :
    (∀ (pipeline : Pipeline) (defaults : Option KubernetesOptions),
      let other := { pipeline with defaults }
      (∀ place, (pipeline.taskAt place).own.IsSet →
        other.project.tasks[place]? = pipeline.project.tasks[place]?) ∧
      (defaults.map KubernetesOptions.withoutRaw =
          pipeline.defaults.map KubernetesOptions.withoutRaw →
        other.project = pipeline.project)) ∧
    (∀ (pipeline : Pipeline) place entry, pipeline.project.tasks[place]? = some entry →
      (pipeline.taskAt place).own.Asks pipeline.defaults entry.cluster) ∧
    ∀ defaults requests place entry,
      let start := withDefaults defaults
      (start.serve requests).2.project.tasks[place]? = some entry →
        (OwnCluster.ofSettings (start.acceptedAt place requests)).Asks defaults entry.cluster := by
  refine ⟨fun pipeline defaults => ⟨fun place hset => ?_, fun hsame => ?_⟩,
    fun pipeline place entry => asks_entry, ?_⟩
  · rw [getElem?_tasks_project, getElem?_tasks_project]
    refine Option.map_congr fun step (hstep : pipeline.steps[place]? = some step) => ?_
    rw [taskAt_of_step hstep] at hset
    apply entry_congr
    rw [clusterRequest?_of_isSet _ hset, clusterRequest?_of_isSet _ hset]
  · exact project_congr fun step _ => entry_congr (clusterRequest?_withoutRaw hsame step.settings)
  · intro defaults requests place entry start hentry
    have hasks := asks_entry hentry
    have hown : ((start.serve requests).2.taskAt place).own =
        .ofSettings (start.acceptedAt place requests) := by
      rw [own_serve, ← OwnCluster.foldl_given]
      rfl
    rwa [hown, defaults_serve] at hasks

/-- A task with options and texts around them, and one with options in which nothing is set. The
defaults of the first task do not matter, nor do those that differ in what is passed through. -/
theorem cluster_of_two_tasks :
    let start := withDefaults (some ⟨"4Gi", "", 0, "ignored"⟩)
    let requests : List Request :=
      [.addTask "train", .setTask 0 (.clusterRaw "early"),
        .setTask 0 (.cluster ⟨"", "2", 1, "own"⟩), .reopenTask "train" (.clusterRaw "late"),
        .addTask "lint", .setTask 1 (.cluster .unset)]
    let last := (start.serve requests).2
    ∃ train lint, last.project.tasks[0]? = some train ∧ last.project.tasks[1]? = some lint ∧
      train.cluster = some ⟨none, some "2", 1, some "late"⟩ ∧
      lint.cluster = some ⟨some "4Gi", none, 0, none⟩ ∧
      { last with defaults := some ⟨"1Gi", "8", 2, ""⟩ }.project.tasks[0]? = some train ∧
      { last with defaults := some ⟨"4Gi", "", 0, "other"⟩ }.project = last.project := by
  intro start requests last
  obtain ⟨hdefaults, hrequest, hhistory⟩ := own_cluster_settings_stand_alone
  have htasks : (last.project.tasks[0]?).isSome = true ∧
      (last.project.tasks[1]?).isSome = true := by decide +kernel
  obtain ⟨train, htrain⟩ := Option.isSome_iff_exists.mp htasks.1
  obtain ⟨lint, hlint⟩ := Option.isSome_iff_exists.mp htasks.2
  have hsettings : OwnCluster.ofSettings (start.acceptedAt 0 requests) =
      ⟨some ⟨"", "2", 1, "own"⟩, "late"⟩ := by decide +kernel
  have hset : (OwnCluster.ofSettings (start.acceptedAt 0 requests)).IsSet := by
    rw [hsettings]
    exact .inr (by decide)
  have hunset : ¬ (last.taskAt 1).own.IsSet := by
    have hown : (last.taskAt 1).own = ⟨some .unset, ""⟩ := by decide +kernel
    rw [hown]
    rintro (⟨_, ⟨⟩, hset⟩ | hset)
    · exact hset rfl
    · exact hset rfl
  refine ⟨train, lint, htrain, hlint, ?_, ?_, ?_, (hdefaults last _).2 (by decide +kernel)⟩
  · rw [(hhistory _ requests 0 train htrain).1 hset, hsettings]
    decide +kernel
  · rw [(hrequest last 1 lint hlint).2 hunset]
    decide +kernel
  · have hown : (last.taskAt 0).own = ⟨some ⟨"", "2", 1, "own"⟩, "late"⟩ := by decide +kernel
    rw [(hdefaults last _).1 0 (by rw [hown]; exact .inr (by decide)), htrain]

end Pipeline

end CiPipeline
