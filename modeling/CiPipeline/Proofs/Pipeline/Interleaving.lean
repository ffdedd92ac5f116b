import CiPipeline.Proofs.Pipeline.Refusal
import CiPipeline.Proofs.Pipeline.Registry
import CiPipeline.Pipeline.Validation

/-!
# Settings of different steps

What is set on a step hangs on this step and on the templates only, and it leaves all other steps
alone; what it mounts is registered once, in whatever order. Main statement: the settings of
different steps can be made in any order among each other, with the same outcomes and the same
tasks in the document.
-/

namespace CiPipeline

/-! ## Settings of steps -/

/-- A setting of a task or a gate. -/
inductive StepSetting where
  | ofTask (setting : TaskSetting)
  | ofGate (setting : GateSetting)

/-- What a setting mounts. -/
def TaskSetting.mountable? : TaskSetting → Option Mountable
  | .mount directory _ => some (.directory directory)
  | .mountCache cache _ => some (.cache cache)
  | .mountCurrent => some (.directory .current)
  | .mountCurrentAt _ => some (.directory .current)
  | _ => none

theorem TaskSetting.registerIn_eq (registry : Registry) (setting : TaskSetting) :
    setting.registerIn registry = Registry.ensureAll registry setting.mountable?.toList := by
  cases setting with
  | mount directory path => exact Registry.addDirectory_nil registry directory
  | mountCurrent => exact Registry.addDirectory_nil registry .current
  | mountCurrentAt path => exact Registry.addDirectory_nil registry .current
  | _ => rfl

namespace StepSetting

/-- The step with the setting, unless the step is not of its kind. -/
def attempt? (templates : OrderedMap Template) (step : Step) :
    StepSetting → Option (Except Refusal Step)
  | .ofTask setting => step.task?.map (setting.apply templates step)
  | .ofGate setting => step.gate?.map (setting.apply step)

def mountables : StepSetting → List Mountable
  | .ofTask setting => setting.mountable?.toList
  | .ofGate _ => []

end StepSetting

namespace Pipeline

/-- The step at the place with the setting, if there is one of its kind. -/
def attempt? (pipeline : Pipeline) (place : Nat) (setting : StepSetting) :
    Option (Except Refusal Step) :=
  (pipeline.steps[place]?).bind fun step => setting.attempt? pipeline.templates step

/-- A setting changes one step and registers what it mounts. Where there is no step of its kind it
is passed over. -/
def configure (pipeline : Pipeline) (place : Nat) (setting : StepSetting) :
    Except Refusal Answer × Pipeline :=
  match pipeline.attempt? place setting with
  | none => (.ok .done, pipeline)
  | some (.error refusal) => (.error refusal, pipeline)
  | some (.ok next) =>
      (.ok .done, { pipeline.putStep place next with
        resources := Registry.ensureAll pipeline.resources setting.mountables })

/-- What is mounted by a setting, unless it is refused or passed over. -/
def mountedAt (pipeline : Pipeline) (place : Nat) (setting : StepSetting) : List Mountable :=
  match pipeline.attempt? place setting with
  | some (.ok _) => setting.mountables
  | _ => []

theorem attempt?_ofTask_of_none {pipeline : Pipeline} {place : Nat}
    (h : (pipeline.steps[place]?).bind Step.task? = none) (setting : TaskSetting) :
    pipeline.attempt? place (.ofTask setting) = none := by
  rw [Option.bind_eq_none_iff] at h
  exact Option.bind_eq_none_iff.mpr fun step hstep => Option.map_eq_none_iff.mpr (h step hstep)

theorem attempt?_ofGate_of_none {pipeline : Pipeline} {place : Nat}
    (h : (pipeline.steps[place]?).bind Step.gate? = none) (setting : GateSetting) :
    pipeline.attempt? place (.ofGate setting) = none := by
  rw [Option.bind_eq_none_iff] at h
  exact Option.bind_eq_none_iff.mpr fun step hstep => Option.map_eq_none_iff.mpr (h step hstep)

theorem configure_of_none {pipeline : Pipeline} {place : Nat} {setting : StepSetting}
    (h : pipeline.attempt? place setting = none) :
    pipeline.configure place setting = (.ok .done, pipeline) := by
  rw [configure, h]

theorem perform_setTaskAt (pipeline : Pipeline) (place : Nat) (setting : TaskSetting) :
    ((fun _ => Answer.done) <$> setTaskAt place setting).perform pipeline =
      pipeline.configure place (.ofTask setting) := by
  rw [Build.perform_map]
  cases htask : (pipeline.steps[place]?).bind Step.task? with
  | none =>
      rw [perform_setTaskAt_of_none htask, configure_of_none (attempt?_ofTask_of_none htask _)]
      rfl
  | some task =>
      obtain ⟨step, hstep, htask⟩ := Option.bind_eq_some_iff.mp htask
      rw [perform_setTaskAt_of_task hstep htask, configure, attempt?, hstep, Option.bind_some,
        StepSetting.attempt?, htask, Option.map_some, StepSetting.mountables,
        TaskSetting.registerIn_eq]
      cases setting.apply pipeline.templates step task <;> rfl

theorem perform_setGateAt (pipeline : Pipeline) (place : Nat) (setting : GateSetting) :
    ((fun _ => Answer.done) <$> setGateAt place setting).perform pipeline =
      pipeline.configure place (.ofGate setting) := by
  rw [Build.perform_map]
  cases hgate : (pipeline.steps[place]?).bind Step.gate? with
  | none =>
      rw [perform_setGateAt_of_none hgate, configure_of_none (attempt?_ofGate_of_none hgate _)]
      rfl
  | some gate =>
      obtain ⟨step, hstep, hgate⟩ := Option.bind_eq_some_iff.mp hgate
      rw [perform_setGateAt_of_gate hstep hgate, configure, attempt?, hstep, Option.bind_some,
        StepSetting.attempt?, hgate, Option.map_some]
      cases setting.apply step gate <;> rfl

/-- A task that is opened by its name is set up like one whose builder is at hand. -/
theorem perform_setTask {pipeline : Pipeline} {name : String} {place : Nat}
    (hplace : pipeline.index? name = some place) (setting : TaskSetting) :
    ((fun _ => Answer.done) <$> setTask name setting).perform pipeline =
      pipeline.configure place (.ofTask setting) := by
  rw [Build.perform_map, setTask, Build.perform_bind, Build.perform_get]
  dsimp only
  cases htask : (pipeline.steps[place]?).bind Step.task? with
  | none =>
      have hpassed : pipeline.taskPlace? name = none := by
        simp [taskPlace?, hplace, htask, Option.filter]
      rw [hpassed, configure_of_none (attempt?_ofTask_of_none htask setting)]
      rfl
  | some task =>
      have hopened : pipeline.taskPlace? name = some place := by
        simp [taskPlace?, hplace, htask, Option.filter]
      rw [hopened, ← perform_setTaskAt, Build.perform_map]

theorem perform_setGate {pipeline : Pipeline} {name : String} {place : Nat}
    (hplace : pipeline.index? name = some place) (setting : GateSetting) :
    ((fun _ => Answer.done) <$> setGate name setting).perform pipeline =
      pipeline.configure place (.ofGate setting) := by
  rw [Build.perform_map, setGate, Build.perform_bind, Build.perform_get]
  dsimp only
  cases hgate : (pipeline.steps[place]?).bind Step.gate? with
  | none =>
      have hpassed : pipeline.gatePlace? name = none := by
        simp [gatePlace?, hplace, hgate, Option.filter]
      rw [hpassed, configure_of_none (attempt?_ofGate_of_none hgate setting)]
      rfl
  | some gate =>
      have hopened : pipeline.gatePlace? name = some place := by
        simp [gatePlace?, hplace, hgate, Option.filter]
      rw [hopened, ← perform_setGateAt, Build.perform_map]

end Pipeline

/-- The place of the step that a request sets up, and with which setting. -/
def Request.target? (pipeline : Pipeline) : Request → Option (Nat × StepSetting)
  | .setTask place setting => some (place, .ofTask setting)
  | .setGate place setting => some (place, .ofGate setting)
  | .reopenTask name setting => (pipeline.index? name).map fun place => (place, .ofTask setting)
  | .reopenGate name setting => (pipeline.index? name).map fun place => (place, .ofGate setting)
  | _ => none

namespace Request

variable {pipeline other : Pipeline} {request : Request}

theorem perform_answer {place : Nat} {setting : StepSetting}
    (h : request.target? pipeline = some (place, setting)) :
    request.answer.perform pipeline = pipeline.configure place setting := by
  cases request with
  | setTask =>
      cases h
      exact Pipeline.perform_setTaskAt pipeline place _
  | setGate =>
      cases h
      exact Pipeline.perform_setGateAt pipeline place _
  | reopenTask name setting =>
      obtain ⟨place, hplace, ⟨⟩⟩ := Option.map_eq_some_iff.mp h
      exact Pipeline.perform_setTask hplace setting
  | reopenGate name setting =>
      obtain ⟨place, hplace, ⟨⟩⟩ := Option.map_eq_some_iff.mp h
      exact Pipeline.perform_setGate hplace setting
  | _ => cases h

theorem target?_congr (request : Request) (h : pipeline.places = other.places) :
    request.target? pipeline = request.target? other := by
  cases request <;> simp only [target?, Pipeline.index?, h]

/-- The place of the step that a request sets up, if it is the setting of a task or a gate. -/
def place? (pipeline : Pipeline) (request : Request) : Option Nat :=
  (request.target? pipeline).map Prod.fst

theorem place?_congr (request : Request) (h : pipeline.places = other.places) :
    request.place? pipeline = request.place? other := by
  rw [place?, place?, request.target?_congr h]

/-- What is mounted by a request, unless it is refused. -/
def mounts (pipeline : Pipeline) (request : Request) : List Mountable :=
  match request.target? pipeline with
  | none => []
  | some (place, setting) => pipeline.mountedAt place setting

end Request

/-! ## What a setting meets and leaves -/

namespace Pipeline

/-- Pipelines in which the settings of the step at the place meet the same: the same step under the
same names, and the same templates. -/
structure AgreeAt (place : Nat) (pipeline other : Pipeline) : Prop where
  step : pipeline.steps[place]? = other.steps[place]?
  places : pipeline.places = other.places
  templates : pipeline.templates = other.templates

variable {pipeline other : Pipeline} {place : Nat}

theorem AgreeAt.refl (place : Nat) (pipeline : Pipeline) : AgreeAt place pipeline pipeline :=
  ⟨rfl, rfl, rfl⟩

theorem AgreeAt.trans {last : Pipeline} (h : AgreeAt place pipeline other)
    (hother : AgreeAt place other last) : AgreeAt place pipeline last :=
  ⟨h.step.trans hother.step, h.places.trans hother.places, h.templates.trans hother.templates⟩

theorem AgreeAt.symm (h : AgreeAt place pipeline other) : AgreeAt place other pipeline :=
  ⟨h.step.symm, h.places.symm, h.templates.symm⟩

/-- A setting of one step leaves what the settings of other steps meet. -/
theorem agreeAt_configure (pipeline : Pipeline) {free : Nat} (h : free ≠ place)
    (setting : StepSetting) : AgreeAt free (pipeline.configure place setting).2 pipeline := by
  rw [configure]
  rcases pipeline.attempt? place setting with _ | refusal | next
  · exact .refl free pipeline
  · exact .refl free pipeline
  · exact ⟨List.getElem?_set_ne (Ne.symm h), rfl, rfl⟩

/-- What settings leave of a pipeline besides its steps, with what they mount on the way. -/
structure Mounted (pipeline next : Pipeline) (items : List Mountable) : Prop where
  places : next.places = pipeline.places
  templates : next.templates = pipeline.templates
  defaults : next.defaults = pipeline.defaults
  resources : next.resources = Registry.ensureAll pipeline.resources items

theorem mounted_configure (pipeline : Pipeline) (place : Nat) (setting : StepSetting) :
    Mounted pipeline (pipeline.configure place setting).2 (pipeline.mountedAt place setting) := by
  rw [configure, mountedAt]
  rcases pipeline.attempt? place setting with _ | refusal | next
  · exact ⟨rfl, rfl, rfl, rfl⟩
  · exact ⟨rfl, rfl, rfl, rfl⟩
  · exact ⟨rfl, rfl, rfl, rfl⟩

theorem Mounted.append {next last : Pipeline} {items more : List Mountable}
    (h : Mounted pipeline next items) (hnext : Mounted next last more) :
    Mounted pipeline last (items ++ more) where
  places := hnext.places.trans h.places
  templates := hnext.templates.trans h.templates
  defaults := hnext.defaults.trans h.defaults
  resources := by
    rw [hnext.resources, h.resources, Registry.ensureAll, Registry.ensureAll, Registry.ensureAll,
      List.foldl_append]

namespace AgreeAt

theorem attempt?_eq (h : AgreeAt place pipeline other) (setting : StepSetting) :
    pipeline.attempt? place setting = other.attempt? place setting := by
  rw [attempt?, attempt?, h.step, h.templates]

theorem mountedAt_eq (h : AgreeAt place pipeline other) (setting : StepSetting) :
    pipeline.mountedAt place setting = other.mountedAt place setting := by
  rw [mountedAt, mountedAt, h.attempt?_eq]

theorem outcome_eq (h : AgreeAt place pipeline other) (setting : StepSetting) :
    (pipeline.configure place setting).1 = (other.configure place setting).1 := by
  rw [configure, configure, h.attempt?_eq]
  rcases other.attempt? place setting with _ | refusal | next <;> rfl

/-- Pipelines that agree at a place still do so after a setting there. -/
theorem configure (h : AgreeAt place pipeline other) (setting : StepSetting) :
    AgreeAt place (pipeline.configure place setting).2 (other.configure place setting).2 := by
  rw [Pipeline.configure, Pipeline.configure, h.attempt?_eq]
  rcases other.attempt? place setting with _ | refusal | next
  · exact h
  · exact h
  · refine ⟨?_, h.places, h.templates⟩
    simp only [putStep, List.getElem?_set_self', h.step]

end AgreeAt

/-! ## Runs of settings -/

/-- All that is mounted when the requests are served one after the other. -/
def mountedBy (pipeline : Pipeline) : List Request → List Mountable
  | [] => []
  | request :: rest =>
      request.mounts pipeline ++ (request.answer.perform pipeline).2.mountedBy rest

/-- The requests that set up the step at the place. -/
def own (pipeline : Pipeline) (place : Nat) (requests : List Request) : List Request :=
  requests.filter fun request => request.place? pipeline = some place

/-- Of a log, the requests that set up the step at the place, with their outcomes. -/
def ownLog (pipeline : Pipeline) (place : Nat) (log : List Served) : List Served :=
  log.filter fun served => served.1.place? pipeline = some place

theorem own_congr (h : pipeline.places = other.places) (place : Nat) (requests : List Request) :
    pipeline.own place requests = other.own place requests := by
  simp only [own, Request.place?_congr _ h]

theorem ownLog_congr (h : pipeline.places = other.places) (place : Nat) (log : List Served) :
    pipeline.ownLog place log = other.ownLog place log := by
  simp only [ownLog, Request.place?_congr _ h]

/-- Every request sets up a step. -/
def SetsUp (pipeline : Pipeline) (requests : List Request) : Prop :=
  ∀ request ∈ requests, (request.place? pipeline).isSome = true

instance (pipeline : Pipeline) (requests : List Request) : Decidable (pipeline.SetsUp requests) :=
  inferInstanceAs (Decidable (∀ request ∈ requests, (request.place? pipeline).isSome = true))

variable {request : Request} {requests : List Request}

theorem exists_target (h : request.place? pipeline = some place) :
    ∃ setting, request.target? pipeline = some (place, setting) := by
  obtain ⟨⟨found, setting⟩, htarget, ⟨⟩⟩ := Option.map_eq_some_iff.mp h
  exact ⟨setting, htarget⟩

theorem mounted_request (h : request.place? pipeline = some place) :
    Mounted pipeline (request.answer.perform pipeline).2 (request.mounts pipeline) := by
  obtain ⟨setting, htarget⟩ := exists_target h
  rw [Request.perform_answer htarget, Request.mounts, htarget]
  exact mounted_configure pipeline place setting

theorem agreeAt_request {free : Nat} (h : request.place? pipeline = some place)
    (hfree : free ≠ place) : AgreeAt free (request.answer.perform pipeline).2 pipeline := by
  obtain ⟨setting, htarget⟩ := exists_target h
  rw [Request.perform_answer htarget]
  exact agreeAt_configure pipeline hfree setting

/-- What is alike when pipelines that agree at a place serve the same requests there: the log, what
is mounted, and again the step at the place. -/
structure SameRun (place : Nat) (pipeline other : Pipeline) (requests : List Request) : Prop where
  log : (pipeline.serve requests).1 = (other.serve requests).1
  mounted : pipeline.mountedBy requests = other.mountedBy requests
  agree : AgreeAt place (pipeline.serve requests).2 (other.serve requests).2

/-- A step is set up by its own requests and the templates alone. -/
theorem AgreeAt.sameRun (h : AgreeAt place pipeline other)
    (hown : ∀ request ∈ requests, request.place? pipeline = some place) :
    SameRun place pipeline other requests := by
  induction requests generalizing pipeline other with
  | nil => exact ⟨rfl, rfl, h⟩
  | cons request rest ih =>
      rw [List.forall_mem_cons] at hown
      obtain ⟨setting, htarget⟩ := exists_target hown.1
      have hother := (request.target?_congr h.places) ▸ htarget
      have hnext := h.configure setting
      have hplaces := (mounted_configure pipeline place setting).places
      have hrest : ∀ request ∈ rest,
          request.place? (pipeline.configure place setting).2 = some place := by
        intro request hrequest
        rw [request.place?_congr hplaces]
        exact hown.2 request hrequest
      obtain ⟨hlog, hmounted, hagree⟩ := ih hnext hrest
      constructor
      case log =>
        rw [serve, serve, Request.perform_answer htarget, Request.perform_answer hother]
        dsimp only
        rw [h.outcome_eq, hlog]
      case mounted =>
        rw [mountedBy, mountedBy, Request.perform_answer htarget, Request.perform_answer hother,
          Request.mounts, Request.mounts, htarget, hother]
        dsimp only
        rw [h.mountedAt_eq, hmounted]
      case agree =>
        rw [serve, serve, Request.perform_answer htarget, Request.perform_answer hother]
        exact hagree

/-! ## Each step for itself -/

theorem SetsUp.cons {request : Request} (h : pipeline.SetsUp (request :: requests)) :
    ∃ place, request.place? pipeline = some place ∧
      (request.answer.perform pipeline).2.SetsUp requests := by
  obtain ⟨hfirst, hrest⟩ := List.forall_mem_cons.mp h
  obtain ⟨place, hplace⟩ := Option.isSome_iff_exists.mp hfirst
  refine ⟨place, hplace, fun other hother => ?_⟩
  rw [other.place?_congr (mounted_request hplace).places]
  exact hrest other hother

theorem SetsUp.mounted (h : pipeline.SetsUp requests) :
    Mounted pipeline (pipeline.serve requests).2 (pipeline.mountedBy requests) := by
  induction requests generalizing pipeline with
  | nil => exact ⟨rfl, rfl, rfl, rfl⟩
  | cons request rest ih =>
      obtain ⟨place, hplace, hrest⟩ := h.cons
      exact (mounted_request hplace).append (ih hrest)

theorem own_cons_of_eq (h : request.place? pipeline = some place) (rest : List Request) :
    pipeline.own place (request :: rest) =
      request :: (request.answer.perform pipeline).2.own place rest := by
  rw [own_congr (mounted_request h).places]
  exact List.filter_cons_of_pos (by simpa using h)

theorem own_cons_of_ne {free : Nat} (h : request.place? pipeline = some place)
    (hfree : free ≠ place) (rest : List Request) :
    pipeline.own free (request :: rest) =
      (request.answer.perform pipeline).2.own free rest := by
  rw [own_congr (mounted_request h).places]
  exact List.filter_cons_of_neg (by simpa [h] using Ne.symm hfree)

theorem place?_of_mem_own (h : request ∈ pipeline.own place requests) :
    request.place? pipeline = some place := by
  simpa using (List.mem_filter.mp h).2

/-- A request for another step leaves what the requests for this one meet. -/
theorem sameRun_own {free : Nat} (h : request.place? pipeline = some place) (hfree : free ≠ place)
    (rest : List Request) :
    SameRun free (request.answer.perform pipeline).2 pipeline
      ((request.answer.perform pipeline).2.own free rest) :=
  (agreeAt_request h hfree).sameRun fun _ => place?_of_mem_own

/-- The requests for one step are served beside others as they are served alone: with the same
outcomes, and to the same step. -/
theorem SetsUp.own_alone (h : pipeline.SetsUp requests) (place : Nat) :
    pipeline.ownLog place (pipeline.serve requests).1 =
        (pipeline.serve (pipeline.own place requests)).1 ∧
      AgreeAt place (pipeline.serve requests).2
        (pipeline.serve (pipeline.own place requests)).2 := by
  induction requests generalizing pipeline with
  | nil => exact ⟨rfl, .refl place pipeline⟩
  | cons request rest ih =>
      obtain ⟨found, hfound, hrest⟩ := h.cons
      obtain ⟨hlog, hagree⟩ := ih hrest
      rw [ownLog_congr (mounted_request hfound).places] at hlog
      by_cases hplace : place = found
      · subst hplace
        rw [own_cons_of_eq hfound]
        refine ⟨?_, hagree⟩
        rw [serve, serve]
        dsimp only
        rw [ownLog, List.filter_cons_of_pos (by simpa using hfound)]
        exact congrArg _ hlog
      · have hsame := sameRun_own hfound hplace rest
        rw [own_cons_of_ne hfound hplace]
        refine ⟨?_, hagree.trans hsame.agree⟩
        rw [← hsame.log, ← hlog, serve]
        exact List.filter_cons_of_neg (by simpa [hfound] using Ne.symm hplace)

theorem mem_mountedBy_own_cons {free : Nat} (h : request.place? pipeline = some place)
    (rest : List Request) {item : Mountable} :
    item ∈ pipeline.mountedBy (pipeline.own free (request :: rest)) ↔
      free = place ∧ item ∈ request.mounts pipeline ∨
        item ∈ (request.answer.perform pipeline).2.mountedBy
          ((request.answer.perform pipeline).2.own free rest) := by
  by_cases hfree : free = place
  · subst hfree
    rw [own_cons_of_eq h, mountedBy, List.mem_append, eq_self, true_and]
  · rw [own_cons_of_ne h hfree, (sameRun_own h hfree rest).mounted]
    simp [hfree]

/-- What is mounted on the whole is what is mounted for any of the steps alone. -/
theorem SetsUp.mem_mountedBy_iff (h : pipeline.SetsUp requests) {item : Mountable} :
    item ∈ pipeline.mountedBy requests ↔
      ∃ place, item ∈ pipeline.mountedBy (pipeline.own place requests) := by
  induction requests generalizing pipeline with
  | nil => simp [mountedBy, own]
  | cons request rest ih =>
      obtain ⟨found, hfound, hrest⟩ := h.cons
      simp only [mountedBy, List.mem_append, ih hrest, mem_mountedBy_own_cons hfound rest,
        exists_or, exists_eq_left]

/-! ## Any order -/

/-- Pipelines that differ at most in the order of their resources. -/
structure Alike (pipeline other : Pipeline) : Prop where
  steps : pipeline.steps = other.steps
  places : pipeline.places = other.places
  templates : pipeline.templates = other.templates
  defaults : pipeline.defaults = other.defaults
  resources : pipeline.resources.SameEntries other.resources

/-- The order of the resources matters neither to validation nor to what is told of the steps. -/
theorem Alike.tasks_document (h : pipeline.Alike other) :
    pipeline.document.map Document.tasks = other.document.map Document.tasks := by
  have hvalidate : pipeline.validate = other.validate := by
    obtain ⟨steps, places, resources, templates, defaults⟩ := pipeline
    obtain ⟨rfl, rfl, rfl, rfl, -⟩ := h
    rfl
  have htasks : pipeline.project.tasks = other.project.tasks := by
    rw [project, project, h.steps, h.defaults]
  rw [document, document, whenValid, whenValid, hvalidate]
  cases other.validate with
  | error problem => rfl
  | ok => exact congrArg Except.ok htasks

variable {others : List Request}

/-- Requests that are the same for each step lead to the same, in whatever order they come. -/
theorem SetsUp.alike (h : pipeline.SetsUp requests) (hothers : pipeline.SetsUp others)
    (hown : ∀ place, pipeline.own place requests = pipeline.own place others) :
    (pipeline.serve requests).2.Alike (pipeline.serve others).2 where
  steps := by
    refine List.ext_getElem? fun place => ?_
    rw [(h.own_alone place).2.step, hown, (hothers.own_alone place).2.step]
  places := h.mounted.places.trans hothers.mounted.places.symm
  templates := h.mounted.templates.trans hothers.mounted.templates.symm
  defaults := h.mounted.defaults.trans hothers.mounted.defaults.symm
  resources := by
    rw [h.mounted.resources, hothers.mounted.resources]
    refine Registry.sameEntries_ensureAll _ fun item => ?_
    simp only [h.mem_mountedBy_iff, hothers.mem_mountedBy_iff, hown]

/-- Settings leave the resources that are there as they are, with their globs. -/
theorem SetsUp.get?_resources (h : pipeline.SetsUp requests) {id : String} {resource : Resource}
    (hknown : pipeline.resources.get? id = some resource) :
    (pipeline.serve requests).2.resources.get? id = some resource := by
  rw [h.mounted.resources]
  exact Registry.get?_ensureAll_eq_some_iff.mpr (.inl hknown)

theorem AgreeAt.answer_eq (h : AgreeAt place pipeline other)
    (hplace : request.place? pipeline = some place) :
    (request.answer.perform pipeline).1 = (request.answer.perform other).1 := by
  obtain ⟨setting, htarget⟩ := exists_target hplace
  have hother := (request.target?_congr h.places) ▸ htarget
  rw [Request.perform_answer htarget, Request.perform_answer hother, h.outcome_eq]

/-- Two settings of different steps lead to the same pipeline in either order, but for the order of
its resources. -/
theorem alike_of_two {first second : Request} {free : Nat}
    (hfirst : first.place? pipeline = some place) (hsecond : second.place? pipeline = some free)
    (hne : place ≠ free) :
    (second.answer.perform (first.answer.perform pipeline).2).2.Alike
      (first.answer.perform (second.answer.perform pipeline).2).2 := by
  have hsets : pipeline.SetsUp [first, second] := by simp [SetsUp, hfirst, hsecond]
  have hothers : pipeline.SetsUp [second, first] := by simp [SetsUp, hfirst, hsecond]
  refine hsets.alike hothers fun found => ?_
  by_cases hplace : place = found
  · subst hplace
    simp [own, hfirst, hsecond, Ne.symm hne]
  · simp [own, List.filter_cons, hfirst, hsecond, hplace]

/-- The settings of different steps commute: two of them have the same outcomes in either order and
lead to the same pipeline, but for the order of its resources, and so do runs of settings with the
same settings in the same order for each step. They leave the resources that are there as they are,
and the tasks of the document are the same. -/
theorem settings_of_steps_commute (pipeline : Pipeline) :
    (∀ (first second : Request) (place free : Nat), first.place? pipeline = some place →
      second.place? pipeline = some free → place ≠ free →
        let afterFirst := (first.answer.perform pipeline).2
        let afterSecond := (second.answer.perform pipeline).2
        (first.answer.perform afterSecond).1 = (first.answer.perform pipeline).1 ∧
        (second.answer.perform afterFirst).1 = (second.answer.perform pipeline).1 ∧
        (second.answer.perform afterFirst).2.Alike (first.answer.perform afterSecond).2) ∧
    ∀ requests others : List Request, pipeline.SetsUp requests → pipeline.SetsUp others →
      (∀ place, pipeline.own place requests = pipeline.own place others) →
        (∀ place, pipeline.ownLog place (pipeline.serve requests).1 =
          pipeline.ownLog place (pipeline.serve others).1) ∧
        (pipeline.serve requests).2.Alike (pipeline.serve others).2 ∧
        (∀ id resource, pipeline.resources.get? id = some resource →
          (pipeline.serve requests).2.resources.get? id = some resource) ∧
        (pipeline.serve requests).2.document.map Document.tasks =
          (pipeline.serve others).2.document.map Document.tasks := by
  constructor
  · intro first second place free hfirst hsecond hne afterFirst afterSecond
    have hbefore := (agreeAt_request hsecond hne).symm
    have hbehind := (agreeAt_request hfirst (Ne.symm hne)).symm
    exact ⟨(hbefore.answer_eq hfirst).symm, (hbehind.answer_eq hsecond).symm,
      alike_of_two hfirst hsecond hne⟩
  · intro requests others hsets hothers hown
    have halike := hsets.alike hothers hown
    refine ⟨fun place => ?_, halike, fun _ _ => hsets.get?_resources, halike.tasks_document⟩
    rw [(hsets.own_alone place).1, hown, (hothers.own_alone place).1]

/-- Two tasks and a gate that are set up in turns or one after the other, with directories that both
tasks mount, a setting that is refused, a template and an output that is taken: the resources come
in another order, the globs stay, and the tasks are the same. -/
theorem settings_of_two_tasks_commute :
    let deps : Cache := ⟨"deps", by decide, by decide⟩
    let src : Directory := ⟨"src", by decide⟩
    let pipeline := (withDefaults none).afterCalls
      [.addTemplate "rust", .setTemplate "rust" (.env "HOME" "/root"), .addTask "build",
        .setTask 0 (.run "make"), .addTask "test", .setTask 1 (.run "make check"),
        .addGate "approve", .addDirectory "src" ["*.rs"]]
    let first : Request := .setTask 0 .mountCurrent
    let second : Request := .reopenTask "test" (.mountCache deps "/deps")
    let inTurns : List Request :=
      [first, second, .setTask 1 (.env "" "1"), .setGate 2 (.after ["build"]),
        .setTask 0 (.template "rust"), .setTask 1 (.inputFrom ⟨"build", "bin", "/bin"⟩),
        .setTask 0 (.mount src "/src"), .setTask 1 (.mountCurrentAt "/src")]
    let oneByOne : List Request :=
      [second, .setTask 1 (.env "" "1"), .setTask 1 (.inputFrom ⟨"build", "bin", "/bin"⟩),
        .setTask 1 (.mountCurrentAt "/src"), first, .setTask 0 (.template "rust"),
        .setTask 0 (.mount src "/src"), .setGate 2 (.after ["build"])]
    let afterFirst := (first.answer.perform pipeline).2
    let afterSecond := (second.answer.perform pipeline).2
    (second.answer.perform afterFirst).2.Alike (first.answer.perform afterSecond).2 ∧
      (pipeline.serve inTurns).2.resources.keys = ["src:src", "src:.", "deps"] ∧
      (pipeline.serve oneByOne).2.resources.keys = ["src:src", "deps", "src:."] ∧
      (pipeline.serve inTurns).2.Alike (pipeline.serve oneByOne).2 ∧
      (pipeline.serve inTurns).2.resources.get? "src:src" = some (.directory "src" ["*.rs"]) ∧
      (pipeline.serve inTurns).2.document.map Document.tasks =
        (pipeline.serve oneByOne).2.document.map Document.tasks := by
  intro deps src pipeline first second inTurns oneByOne afterFirst afterSecond
  have hfirst : first.place? pipeline = some 0 := rfl
  have hsecond : second.place? pipeline = some 1 := by decide +kernel
  have hsets : pipeline.SetsUp inTurns := by decide +kernel
  have hothers : pipeline.SetsUp oneByOne := by decide +kernel
  have hown : ∀ place, pipeline.own place inTurns = pipeline.own place oneByOne := by
    intro place
    rcases place with _ | _ | _ | place
    · decide +kernel
    · decide +kernel
    · decide +kernel
    · rfl
  have hturns : (pipeline.serve inTurns).2.resources.keys = ["src:src", "src:.", "deps"] := by
    decide +kernel
  have hsingle : (pipeline.serve oneByOne).2.resources.keys = ["src:src", "deps", "src:."] := by
    decide +kernel
  have hsrc : pipeline.resources.get? "src:src" = some (.directory "src" ["*.rs"]) := by
    decide +kernel
  obtain ⟨htwo, hruns⟩ := settings_of_steps_commute pipeline
  obtain ⟨-, -, halike⟩ := htwo first second 0 1 hfirst hsecond (by decide)
  obtain ⟨-, hsame, hstay, htasks⟩ := hruns inTurns oneByOne hsets hothers hown
  exact ⟨halike, hturns, hsingle, hsame, hstay _ _ hsrc, htasks⟩

end Pipeline

end CiPipeline
