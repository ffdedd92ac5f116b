import CiPipeline.Proofs.Pipeline.Omission
import CiPipeline.Proofs.Pipeline.TaskAt
import Mathlib.Data.List.DropRight

/-!
# Own settings and those of templates

A task is given a container, a working directory, variables and mounts by settings of its own and by
templates that it takes over, in any order. Main statement: what is emitted in the end is told by
the history of what the task was given, its own settings before those of any template, and of the
templates the one that was taken over first.
-/

namespace CiPipeline

/-! ## What a task is given -/

/-- One thing that a task is given of the settings that a template can hold: a setting of its own,
or all that a template holds when it is taken over. -/
inductive Provision where
  | env (key value : String)
  | container (image : String)
  | workdir (path : String)
  | mount (item : Mount)
  | template (source : Template)
deriving DecidableEq

namespace Provision

def template? : Provision → Option Template
  | .template source => some source
  | _ => none

/-- The value that is given to a variable. -/
def value? (key : String) : Provision → Option String
  | .env name value => if name = key then some value else none
  | _ => none

def image? : Provision → Option String
  | .container image => some image
  | _ => none

def path? : Provision → Option String
  | .workdir path => some path
  | _ => none

def mount? : Provision → Option Mount
  | .mount item => some item
  | _ => none

/-- All templates that were taken over, in their order. -/
def templates (given : List Provision) : List Template := given.filterMap template?

/-- What was given since the working directory was last set to nothing, or since the start. -/
def sinceEmptied (given : List Provision) : List Provision := given.rtakeWhile (· ≠ .workdir "")

/-! ### What comes of a history -/

/-- The last value that was given to a variable, or else that of the first template that has it. -/
def env? (given : List Provision) (key : String) : Option String :=
  (given.filterMap (value? key)).getLast?.or
    ((templates given).findSome? fun source => source.env.get? key)

/-- The last image that was given, or else that of the first template that has one. -/
def container? (given : List Provision) : Option String :=
  (given.filterMap image?).getLast?.or ((templates given).findSome? Template.container)

/-- The last path that was given, if it is not empty. Else it is that of the first template that has
one, among those taken over since the last empty path. -/
def workdir? (given : List Provision) : Option String :=
  (nonempty? (given.filterMap path?).getLast?).or
    ((templates (sinceEmptied given)).findSome? fun source => nonempty? source.workdir)

/-- The mounts of the templates, the last template first, and then the mounts that were given. -/
def mounts (given : List Provision) : List Mount :=
  (templates given).reverse.flatMap Template.mounts ++ given.filterMap mount?

/-! ### Step by step -/

/-- Settings with one more thing, which may be a template that is taken over. -/
def addTo (held : Template) : Provision → Template
  | .env key value => { held with env := held.env.insert key value }
  | .container image => { held with container := some image }
  | .workdir path => { held with workdir := some path }
  | .mount item => { held with mounts := held.mounts ++ [item] }
  | .template source =>
      { container := if isBare held.container then source.container else held.container
        workdir := if isBare held.workdir then source.workdir else held.workdir
        env := source.env.extend held.env.toList
        mounts := source.mounts ++ held.mounts }

/-- What is held after all that was given. -/
def total (given : List Provision) : Template := given.foldl addTo .unset

theorem total_concat (given : List Provision) (provision : Provision) :
    total (given ++ [provision]) = provision.addTo (total given) := by
  rw [total, List.foldl_append]
  rfl

@[simp] theorem templates_concat (given : List Provision) (provision : Provision) :
    templates (given ++ [provision]) = templates given ++ provision.template?.toList := by
  cases provision <;> simp [templates, template?, List.filterMap_cons]

theorem get?_env_total (given : List Provision) (key : String) :
    (total given).env.get? key = env? given key := by
  induction given using List.reverseRecOn with
  | nil => rfl
  | append_singleton given provision ih =>
      rw [total_concat, env?, templates_concat, List.filterMap_append]
      cases provision with
      | env name value =>
          rw [addTo, OrderedMap.get?_insert, ih, env?]
          by_cases hname : key = name
          · simp [value?, hname]
          · simp [value?, template?, hname, Ne.symm hname]
      | template source =>
          rw [addTo, OrderedMap.get?_extend_toList, ih, env?]
          simp [value?, template?, Option.or_assoc]
      | container | workdir | mount =>
          rw [addTo, ih, env?]
          simp [value?, template?]

/-- No image is empty, neither one that was given nor that of a template. -/
def Filled : Provision → Prop
  | .container image => image ≠ ""
  | .template source => source.Filled
  | _ => True

theorem Filled.addTo {held : Template} {provision : Provision} (h : provision.Filled)
    (hheld : held.Filled) : (provision.addTo held).Filled := by
  cases provision with
  | container image =>
      have himage : image ≠ "" := h
      simpa [Provision.addTo, Template.Filled] using himage
  | template source =>
      rw [Provision.addTo, Template.Filled]
      dsimp only
      split
      · exact h
      · exact hheld
  | env | workdir | mount => exact hheld

theorem filled_total {given : List Provision} (h : ∀ provision ∈ given, provision.Filled) :
    (total given).Filled := by
  induction given using List.reverseRecOn with
  | nil => simp [total, Template.Filled, Template.unset]
  | append_singleton given provision ih =>
      rw [List.forall_mem_append, List.forall_mem_singleton] at h
      rw [total_concat]
      exact h.2.addTo (ih h.1)

theorem container_total {given : List Provision} (h : ∀ provision ∈ given, provision.Filled) :
    (total given).container = container? given := by
  induction given using List.reverseRecOn with
  | nil => rfl
  | append_singleton given provision ih =>
      rw [List.forall_mem_append, List.forall_mem_singleton] at h
      have hheld : (total given).Filled := filled_total h.1
      rw [total_concat, container?, templates_concat, List.filterMap_append]
      cases provision with
      | container image => simp [addTo, image?]
      | template source =>
          have hbare : (addTo (total given) (.template source)).container =
              (total given).container.or source.container := by
            rw [addTo]
            cases hcontainer : (total given).container with
            | none => rfl
            | some image =>
                have himage : isBare (some image) = false := by
                  simpa [isBare, Template.Filled, hcontainer] using hheld
                simp [himage]
          rw [hbare, ih h.1, container?]
          simp [image?, template?, Option.or_assoc]
      | env | workdir | mount =>
          rw [addTo, ih h.1, container?]
          simp [image?, template?]

theorem nonempty?_some {text : String} (h : text ≠ "") : nonempty? (some text) = some text := by
  simpa [nonempty?, Option.filter_eq_some_iff] using h

theorem nonempty?_takeOver (own other : Option String) :
    nonempty? (if isBare own then other else own) = (nonempty? own).or (nonempty? other) := by
  cases own with
  | none => rfl
  | some text =>
      by_cases htext : text = ""
      · subst htext
        rfl
      · simp [isBare, nonempty?_some htext, htext]

theorem workdir_total (given : List Provision) :
    nonempty? (total given).workdir = workdir? given := by
  induction given using List.reverseRecOn with
  | nil => rfl
  | append_singleton given provision ih =>
      rw [total_concat, workdir?, List.filterMap_append, sinceEmptied, List.rtakeWhile_concat]
      cases provision with
      | workdir path =>
          by_cases hpath : path = ""
          · subst hpath
            simp [addTo, path?, templates]
          · simp [addTo, path?, hpath, nonempty?_some hpath]
      | template source =>
          rw [addTo, nonempty?_takeOver, ih, workdir?, sinceEmptied]
          simp [path?, template?, Option.or_assoc]
      | env | container | mount =>
          rw [addTo, ih, workdir?, sinceEmptied]
          simp [path?, template?]

theorem mounts_total (given : List Provision) : (total given).mounts = mounts given := by
  induction given using List.reverseRecOn with
  | nil => rfl
  | append_singleton given provision ih =>
      rw [total_concat, mounts, templates_concat, List.filterMap_append]
      cases provision with
      | template source => simp [addTo, ih, mounts, mount?, template?]
      | mount item => simp [addTo, ih, mounts, mount?, template?]
      | env | container | workdir =>
          rw [addTo, ih, mounts]
          simp [mount?, template?]

end Provision

/-! ## What settings give -/

/-- The settings of a task that a template can hold. -/
def Task.held (task : Task) : Template where
  container := task.container
  workdir := task.workdir
  env := task.env
  mounts := task.mounts

/-- What a setting that passed its checks gives to a task. -/
def TaskSetting.provisions (templates : OrderedMap Template) : TaskSetting → List Provision
  | .container image => [.container image]
  | .workdir path => [.workdir path]
  | .env key value => [.env key value]
  | .mount directory path => [.mount (directory.mountAt path)]
  | .mountCache cache path => [.mount (cache.mountAt path)]
  | .mountCurrent =>
      [.workdir currentMountPath, .mount (Directory.current.mountAt currentMountPath)]
  | .mountCurrentAt path => [.workdir path, .mount (Directory.current.mountAt path)]
  | .template name => ((templates.get? name).map Provision.template).toList
  | _ => []

/-- What a setting of a step gives. A gate is given nothing. -/
def StepSetting.provisions (templates : OrderedMap Template) : StepSetting → List Provision
  | .ofTask setting => setting.provisions templates
  | .ofGate _ => []

theorem TaskSetting.held_change (templates : OrderedMap Template) (task : Task)
    (setting : TaskSetting) :
    (setting.change templates task).held =
      (setting.provisions templates).foldl Provision.addTo task.held := by
  cases setting with
  | template name =>
      rw [change, provisions]
      cases templates.get? name <;> rfl
  | _ => rfl

theorem TaskSetting.filled_provisions {templates : OrderedMap Template} {step next : Step}
    {task : Task} {setting : TaskSetting}
    (htemplates : ∀ name template, templates.get? name = some template → template.Filled)
    (h : setting.apply templates step task = .ok next) :
    ∀ provision ∈ setting.provisions templates, provision.Filled := by
  cases setting with
  | container image =>
      have himage : image ≠ "" := by
        rintro rfl
        cases h
      simpa [provisions, Provision.Filled] using himage
  | template name =>
      rw [provisions]
      cases hfound : templates.get? name with
      | none => simp
      | some found => simpa [Provision.Filled] using htemplates name found hfound
  | _ => simp [provisions, Provision.Filled]

/-! ## Steps -/

namespace Step

/-- The settings of a step that a template can hold. -/
def held (step : Step) : Template := step.settings.held

end Step

namespace Pipeline

variable {pipeline : Pipeline} {place : Nat}

/-- The settings of the step at the place that a template can hold. Where there is no step nothing
is set. -/
def heldAt (pipeline : Pipeline) (place : Nat) : Template :=
  ((pipeline.steps[place]?).map Step.held).getD .unset

theorem heldAt_eq (pipeline : Pipeline) (place : Nat) :
    pipeline.heldAt place = (pipeline.taskAt place).held := by
  rw [heldAt, taskAt]
  cases pipeline.steps[place]? <;> rfl

/-! ## Settings at a place -/

/-- What a setting gives to the step at the place. It gives nothing if it is refused, or passed over
because there is no step of its kind. -/
def provisionsAt (pipeline : Pipeline) (place : Nat) (setting : StepSetting) : List Provision :=
  match pipeline.attempt? place setting with
  | some (.ok _) => setting.provisions pipeline.templates
  | _ => []

theorem provisionsAt_eq (pipeline : Pipeline) (place : Nat) (setting : StepSetting) :
    pipeline.provisionsAt place setting =
      (pipeline.accepted? place setting).elim [] (·.provisions pipeline.templates) := by
  rw [provisionsAt, accepted?]
  rcases pipeline.attempt? place setting with _ | refusal | set
  · rfl
  · rfl
  · cases setting <;> rfl

/-- The templates of a reachable pipeline have no empty image, and no task is given one. -/
theorem filled_provisionsAt (h : pipeline.Reachable) (setting : StepSetting) :
    ∀ provision ∈ pipeline.provisionsAt place setting, provision.Filled := by
  rw [provisionsAt]
  rcases hattempt : pipeline.attempt? place setting with _ | refusal | set
  · simp
  · simp
  · obtain ⟨step, hstep, hset⟩ := Option.bind_eq_some_iff.mp hattempt
    cases setting with
    | ofTask setting =>
        obtain ⟨task, htask, happly⟩ := Option.map_eq_some_iff.mp hset
        exact TaskSetting.filled_provisions (h.each kept_filled).templates happly
    | ofGate setting => simp [StepSetting.provisions]

end Pipeline

/-! ## Requests -/

/-- What a request gives to the step at the place. -/
def Request.provisions (pipeline : Pipeline) (place : Nat) (request : Request) : List Provision :=
  match request.target? pipeline with
  | some (target, setting) => if target = place then pipeline.provisionsAt target setting else []
  | none => []

/-- What is ready-made has nothing set that a template can hold. -/
theorem Preset.provisions_eq_nil (preset : Preset) {setting : TaskSetting}
    (h : setting ∈ preset.settings) (templates : OrderedMap Template) :
    setting.provisions templates = [] := by
  rcases Preset.eq_of_mem_settings h with rfl | rfl | ⟨paths, rfl⟩ <;> rfl

theorem unprepared_held : Unprepared Task.held := by
  intro preset setting hsetting templates task
  rw [TaskSetting.held_change, preset.provisions_eq_nil hsetting, List.foldl_nil]

namespace Request

variable {pipeline : Pipeline}

theorem provisions_eq (pipeline : Pipeline) (place : Nat) (request : Request) :
    request.provisions pipeline place =
      (request.accepted? pipeline place).elim [] (·.provisions pipeline.templates) := by
  rw [provisions, accepted?]
  cases request.target? pipeline with
  | none => rfl
  | some found =>
      rw [Option.bind_some]
      dsimp only
      split
      · exact Pipeline.provisionsAt_eq pipeline _ _
      · rfl

/-- Whatever is requested, a step has in the end what the request gives it on top of what it had. -/
theorem heldAt_answer (pipeline : Pipeline) (request : Request) (place : Nat) :
    (request.answer.perform pipeline).2.heldAt place =
      (request.provisions pipeline place).foldl Provision.addTo (pipeline.heldAt place) := by
  rw [Pipeline.heldAt_eq, Pipeline.heldAt_eq, read_answer unprepared_held, provisions_eq,
    Pipeline.taskWith]
  cases request.accepted? pipeline place with
  | none => rfl
  | some setting => exact setting.held_change pipeline.templates _

/-- No request gives an empty image. -/
theorem filled_provisions (h : pipeline.Reachable) (request : Request) (place : Nat) :
    ∀ provision ∈ request.provisions pipeline place, provision.Filled := by
  rw [provisions]
  cases request.target? pipeline with
  | none => simp
  | some found =>
      dsimp only
      split
      · exact Pipeline.filled_provisionsAt h _
      · simp

end Request

/-! ## Runs -/

namespace Pipeline

variable {pipeline : Pipeline}

/-- All that the step at the place is given when the requests are served one after the other. -/
def provisions (pipeline : Pipeline) (place : Nat) : List Request → List Provision
  | [] => []
  | request :: rest =>
      request.provisions pipeline place ++
        (request.answer.perform pipeline).2.provisions place rest

theorem heldAt_serve (pipeline : Pipeline) (place : Nat) (requests : List Request) :
    (pipeline.serve requests).2.heldAt place =
      (pipeline.provisions place requests).foldl Provision.addTo (pipeline.heldAt place) := by
  induction requests generalizing pipeline with
  | nil => rfl
  | cons request rest ih =>
      rw [provisions, List.foldl_append, ← Request.heldAt_answer]
      exact ih _

theorem filled_provisions (h : pipeline.Reachable) (place : Nat) (requests : List Request) :
    ∀ provision ∈ pipeline.provisions place requests, provision.Filled := by
  induction requests generalizing pipeline with
  | nil => simp [provisions]
  | cons request rest ih =>
      rw [provisions, List.forall_mem_append]
      exact ⟨Request.filled_provisions h request place, ih (h.answer request)⟩

/-- What is emitted for a step is what it has of the settings that a template can hold. -/
theorem held_entry {place : Nat} {entry : TaskEntry}
    (h : pipeline.project.tasks[place]? = some entry) :
    entry.env = (pipeline.heldAt place).env ∧ entry.container = (pipeline.heldAt place).container ∧
      entry.workdir = nonempty? (pipeline.heldAt place).workdir ∧
      entry.mounts = (pipeline.heldAt place).mounts := by
  rw [project, List.getElem?_map] at h
  obtain ⟨step, hstep, rfl⟩ := Option.map_eq_some_iff.mp h
  have hheld : pipeline.heldAt place = step.settings.held := by
    rw [heldAt, hstep, Option.map_some, Option.getD_some, Step.held]
  rw [hheld]
  exact ⟨rfl, rfl, rfl, rfl⟩

/-- What is emitted for a step in the end, whatever was requested: a variable has its last own
value, or else that of the first template with the variable; the container is the last own one, or
else that of the first template with one; the working directory is the last own one if not empty,
or else the first one of the templates taken over since it was emptied; and the mounts are those of
the templates, the last template first, and then the own ones. -/
theorem own_settings_precede_templates (defaults : Option KubernetesOptions)
    (requests : List Request) :
    let start := withDefaults defaults
    let last := (start.serve requests).2
    ∀ place entry, last.project.tasks[place]? = some entry →
      let given := start.provisions place requests
      (∀ key, entry.env.get? key = Provision.env? given key) ∧
        entry.container = Provision.container? given ∧
        entry.workdir = Provision.workdir? given ∧
        entry.mounts = Provision.mounts given := by
  intro start last place entry hentry given
  have hstart : start.Reachable := .start defaults
  have hheld : last.heldAt place = Provision.total given := start.heldAt_serve place requests
  have hfilled := filled_provisions hstart place requests
  obtain ⟨henv, hcontainer, hworkdir, hmounts⟩ := held_entry hentry
  rw [hheld] at henv hcontainer hworkdir hmounts
  refine ⟨fun key => ?_, ?_, ?_, ?_⟩
  · rw [henv, Provision.get?_env_total]
  · rw [hcontainer, Provision.container_total hfilled]
  · rw [hworkdir, Provision.workdir_total]
  · rw [hmounts, Provision.mounts_total]

/-- Two templates with the same variables, taken over around settings of the task itself. The
working directory is emptied in between, a mount is refused, and one template is set further when it
has been taken over already. -/
theorem settings_of_two_templates :
    let src : Directory := ⟨"src", by decide⟩
    let deps : Cache := ⟨"deps", by decide, by decide⟩
    let requests : List Request :=
      [.addTemplate "base", .setTemplate "base" (.container "rust:1"),
        .setTemplate "base" (.workdir "/base"), .setTemplate "base" (.env "CI" "1"),
        .setTemplate "base" (.env "HOME" "/root"), .setTemplate "base" (.mount src "/src"),
        .addTemplate "slow", .setTemplate "slow" (.container "rust:2"),
        .setTemplate "slow" (.workdir "/slow"), .setTemplate "slow" (.env "CI" "2"),
        .setTemplate "slow" (.env "RUSTFLAGS" "-g"), .setTemplate "slow" (.mountCache deps "/deps"),
        .addTask "build", .setTask 0 (.env "HOME" "/home"), .setTask 0 .mountCurrent,
        .setTask 0 (.template "base"), .setTask 0 (.workdir ""),
        .setTemplate "base" (.env "LATE" "1"), .setTask 0 (.template "slow"),
        .setTask 0 (.mount src "relative"), .reopenTask "build" (.env "HOME" "/tmp")]
    let last := ((withDefaults none).serve requests).2
    ∃ entry, last.project.tasks[0]? = some entry ∧ entry.env.get? "HOME" = some "/tmp" ∧
      entry.env.get? "CI" = some "1" ∧ entry.env.get? "RUSTFLAGS" = some "-g" ∧
      entry.env.get? "LATE" = none ∧ entry.container = some "rust:1" ∧
      entry.workdir = some "/slow" ∧
      entry.mounts = [⟨"deps", "/deps", .cache⟩, ⟨"src:src", "/src", .directory⟩,
        ⟨"src:.", "/work", .directory⟩] := by
  intro src deps requests last
  have hentry : ∃ entry, last.project.tasks[0]? = some entry := by
    rw [← Option.isSome_iff_exists]
    decide +kernel
  obtain ⟨entry, hentry⟩ := hentry
  obtain ⟨henv, hcontainer, hworkdir, hmounts⟩ :=
    own_settings_precede_templates none requests 0 entry hentry
  refine ⟨entry, hentry, ?_⟩
  rw [henv, henv, henv, henv, hcontainer, hworkdir, hmounts]
  decide +kernel

end Pipeline

end CiPipeline
