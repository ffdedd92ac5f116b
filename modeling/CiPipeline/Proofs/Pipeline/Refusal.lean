import CiPipeline.Proofs.Pipeline.Call

/-!
# Refused calls

A single call that is refused leaves the whole pipeline as it was. Main statement: this holds of
every call, ready-made tasks included, and a run of calls comes to the same pipeline and the same
answers if its refused calls are left out.
-/

namespace CiPipeline

/-! ## Settings -/

namespace Pipeline

open Build

theorem neverRefused_changeStep (place : Nat) (change : Step → Step) :
    (changeStep place change).NeverRefused :=
  neverRefused_modify _

theorem neverRefused_changeTask (place : Nat) (change : Task → Task) :
    (changeTask place change).NeverRefused :=
  neverRefused_changeStep place _

theorem neverRefused_mountCurrentAt (place : Nat) (path : String) :
    (Pipeline.mountCurrentAt place path).NeverRefused :=
  (neverRefused_modify _).bind fun _ =>
    (neverRefused_changeTask place _).bind fun _ => neverRefused_changeTask place _

theorem neverRefused_takeOver (place : Nat) (template : Template) :
    (takeOver place template).NeverRefused :=
  (neverRefused_changeTask place _).bind fun _ =>
    (neverRefused_changeTask place _).bind fun _ =>
      (neverRefused_changeTask place _).bind fun _ => neverRefused_changeTask place _

end Pipeline

open Build Pipeline

/-- Whatever a setting of a task checks, it checks before it changes anything. -/
theorem TaskSetting.leavesNoTrace_make (place : Nat) (name : String) (setting : TaskSetting) :
    (setting.make place name).LeavesNoTrace := by
  cases setting with
  | after | afterGroups | condition =>
      rw [make]
      exact (neverRefused_changeStep place _).leavesNoTrace
  | inputs | workdir | service | output | outputs | matrix | retry | target | cluster | clusterRaw
  | requires | covers | intent | critical | smart =>
      rw [make]
      exact (neverRefused_changeTask place _).leavesNoTrace
  | run | container | env | secret | secrets | timeout | provides | needs =>
      rw [make]
      exact (checks_refuseIf _ _).bind fun _ => (neverRefused_changeTask place _).leavesNoTrace
  | secretFrom =>
      rw [make]
      exact (checks_refuseIf _ _).bind fun _ => (checks_refuseIf _ _).bind fun _ =>
        (neverRefused_changeTask place _).leavesNoTrace
  | mount | mountCache =>
      rw [make]
      refine (checks_refuseIf _ _).bind fun _ => NeverRefused.leavesNoTrace ?_
      exact (neverRefused_modify _).bind fun _ => neverRefused_changeTask place _
  | mountCurrent =>
      rw [make]
      exact (neverRefused_mountCurrentAt place _).leavesNoTrace
  | mountCurrentAt path =>
      rw [make]
      exact (checks_refuseIf _ _).bind fun _ =>
        (neverRefused_mountCurrentAt place path).leavesNoTrace
  | inputFrom =>
      rw [make]
      refine NeverRefused.leavesNoTrace ?_
      exact (neverRefused_changeTask place _).bind fun _ => neverRefused_changeStep place _
  | criticality choice | onFailure choice | selection choice =>
      rw [make]
      exact (checks_ofExcept _).bind fun _ => (neverRefused_changeTask place _).leavesNoTrace
  | template templateName =>
      rw [make]
      refine checks_get.bind fun pipeline => ?_
      cases pipeline.templates.get? templateName with
      | none => exact leavesNoTrace_throw _
      | some found => exact (neverRefused_takeOver place found).leavesNoTrace

theorem GateSetting.leavesNoTrace_make (place : Nat) (name : String) (setting : GateSetting) :
    (setting.make place name).LeavesNoTrace := by
  have hchange (change : Gate → Gate) : (changeGate place change).LeavesNoTrace :=
    (neverRefused_changeStep place _).leavesNoTrace
  cases setting with
  | after | afterGroups | condition =>
      rw [make]
      exact (neverRefused_changeStep place _).leavesNoTrace
  | message | envVariable | filePath =>
      rw [make]
      exact hchange _
  | timeout =>
      rw [make]
      exact (checks_refuseIf _ _).bind fun _ => hchange _
  | strategy =>
      rw [make]
      exact (checks_ofExcept _).bind fun _ => hchange _

theorem TemplateSetting.leavesNoTrace_make (name : String) (setting : TemplateSetting) :
    (setting.make name).LeavesNoTrace := by
  have hchange (change : Template → Template) : (changeTemplate name change).LeavesNoTrace :=
    (neverRefused_modify _).leavesNoTrace
  cases setting with
  | workdir =>
      rw [make]
      exact hchange _
  | container | env =>
      rw [make]
      exact (checks_refuseIf _ _).bind fun _ => hchange _
  | mount | mountCache =>
      rw [make]
      refine (checks_refuseIf _ _).bind fun _ => NeverRefused.leavesNoTrace ?_
      exact (neverRefused_modify _).bind fun _ => neverRefused_modify _

/-! ## Calls -/

namespace Pipeline

theorem leavesNoTrace_setTaskAt (place : Nat) (setting : TaskSetting) :
    (setTaskAt place setting).LeavesNoTrace := by
  refine checks_get.bind fun pipeline => ?_
  cases pipeline.steps[place]? with
  | none => exact (neverRefused_pure ()).leavesNoTrace
  | some step =>
      dsimp only
      split
      · exact (neverRefused_pure ()).leavesNoTrace
      · exact setting.leavesNoTrace_make place step.name

theorem leavesNoTrace_setTask (name : String) (setting : TaskSetting) :
    (setTask name setting).LeavesNoTrace := by
  refine checks_get.bind fun pipeline => ?_
  cases pipeline.taskPlace? name with
  | none => exact (neverRefused_pure ()).leavesNoTrace
  | some place => exact leavesNoTrace_setTaskAt place setting

theorem leavesNoTrace_setGateAt (place : Nat) (setting : GateSetting) :
    (setGateAt place setting).LeavesNoTrace := by
  refine checks_get.bind fun pipeline => ?_
  cases pipeline.steps[place]? with
  | none => exact (neverRefused_pure ()).leavesNoTrace
  | some step =>
      dsimp only
      split
      · exact setting.leavesNoTrace_make place step.name
      · exact (neverRefused_pure ()).leavesNoTrace

theorem leavesNoTrace_setGate (name : String) (setting : GateSetting) :
    (setGate name setting).LeavesNoTrace := by
  refine checks_get.bind fun pipeline => ?_
  cases pipeline.gatePlace? name with
  | none => exact (neverRefused_pure ()).leavesNoTrace
  | some place => exact leavesNoTrace_setGateAt place setting

theorem leavesNoTrace_setTemplate (name : String) (setting : TemplateSetting) :
    (setTemplate name setting).LeavesNoTrace := by
  refine checks_get.bind fun pipeline => ?_
  cases pipeline.templates.get? name with
  | none => exact (neverRefused_pure ()).leavesNoTrace
  | some template => exact setting.leavesNoTrace_make name

theorem leavesNoTrace_register (named : Named) (step : Step) :
    (register named step).LeavesNoTrace := by
  refine checks_get.bind fun pipeline => ?_
  split
  · exact leavesNoTrace_throw _
  · split
    · exact leavesNoTrace_throw _
    · exact ((neverRefused_modify _).bind fun _ => neverRefused_pure _).leavesNoTrace

theorem leavesNoTrace_addTemplate (name : String) : (addTemplate name).LeavesNoTrace := by
  refine checks_get.bind fun pipeline => ?_
  split
  · exact leavesNoTrace_throw _
  · split
    · exact leavesNoTrace_throw _
    · exact (neverRefused_modify _).leavesNoTrace

theorem leavesNoTrace_addDirectory (path : String) (globs : List String) :
    (addDirectory path globs).LeavesNoTrace :=
  (checks_ofExcept _).bind fun _ =>
    ((neverRefused_modify _).bind fun _ => neverRefused_pure _).leavesNoTrace

theorem leavesNoTrace_addCache (name : String) : (addCache name).LeavesNoTrace :=
  (checks_ofExcept _).bind fun _ =>
    ((neverRefused_modify _).bind fun _ => neverRefused_pure _).leavesNoTrace

theorem leavesNoTrace_chain (stages : List Stage) : (chain stages).LeavesNoTrace :=
  checks_get.bind fun _ =>
    ((neverRefused_modify _).bind fun _ => neverRefused_pure _).leavesNoTrace

end Pipeline

/-! ## Ready-made tasks -/

/-- All that a preset sets is its command, its inputs and its outputs. -/
theorem Preset.eq_of_mem_settings {preset : Preset} {setting : TaskSetting}
    (h : setting ∈ preset.settings) :
    setting = .run preset.command ∨ setting = .inputs inputs ∨
      ∃ paths, setting = .outputs paths := by
  rw [← or_assoc]
  cases preset with
  | test | lint => exact .inl (by simpa [settings] using h)
  | build output =>
      rcases List.mem_append.mp h with hcommon | houtputs
      · exact .inl (by simpa using hcommon)
      · exact .inr ⟨[output], List.mem_singleton.mp houtputs⟩

theorem Preset.neverRefused_make {preset : Preset} {setting : TaskSetting}
    (h : setting ∈ preset.settings) (place : Nat) (name : String) :
    (setting.make place name).NeverRefused := by
  rcases eq_of_mem_settings h with rfl | rfl | ⟨paths, rfl⟩
  · have hcommand : preset.command.isEmpty = false := by cases preset <;> rfl
    rw [TaskSetting.make, hcommand]
    exact (neverRefused_pure ()).bind fun _ => neverRefused_changeTask place _
  · rw [TaskSetting.make]
    exact neverRefused_changeTask place _
  · rw [TaskSetting.make]
    exact neverRefused_changeTask place _

namespace Pipeline

theorem neverRefused_setTaskAt (place : Nat) {setting : TaskSetting}
    (h : ∀ name, (setting.make place name).NeverRefused) :
    (setTaskAt place setting).NeverRefused := by
  refine neverRefused_get.bind fun pipeline => ?_
  cases pipeline.steps[place]? with
  | none => exact neverRefused_pure ()
  | some step =>
      dsimp only
      split
      · exact neverRefused_pure ()
      · exact h step.name

theorem neverRefused_setTask (name : String) {setting : TaskSetting}
    (h : ∀ place name, (setting.make place name).NeverRefused) :
    (setTask name setting).NeverRefused := by
  refine neverRefused_get.bind fun pipeline => ?_
  cases pipeline.taskPlace? name with
  | none => exact neverRefused_pure ()
  | some place => exact neverRefused_setTaskAt place (h place)

/-- Once its name is taken up, a ready-made task has nothing that could be refused. -/
theorem leavesNoTrace_addPreset (preset : Preset) : (addPreset preset).LeavesNoTrace := by
  have hadd : (addTask preset.taskName).LeavesNoTrace :=
    (leavesNoTrace_register .task (.newTask preset.taskName)).map _
  refine hadd.bind fun _ => ?_
  refine NeverRefused.bind (NeverRefused.forIn fun setting hsetting => ?_) fun _ => ?_
  · exact neverRefused_setTask preset.taskName (Preset.neverRefused_make hsetting)
  · exact neverRefused_pure preset.taskName

end Pipeline

/-! ## Requests -/

/-- What a call gives to its caller. The builder of a step is its place. -/
inductive Answer where
  | done
  | place (place : Nat)
  | name (name : String)
  | directory (directory : Directory)
  | cache (cache : Cache)
  | group (group : TaskGroup)
deriving DecidableEq

/-- A single call as it can be made from outside. Steps are set through the builder that their
registration gave, or through one that is opened again by name. -/
inductive Request where
  | addTask (name : String)
  | addGate (name : String)
  | addTemplate (name : String)
  | addDirectory (path : String) (globs : List String)
  | addCache (name : String)
  | addPreset (preset : Preset)
  | setTask (place : Nat) (setting : TaskSetting)
  | setGate (place : Nat) (setting : GateSetting)
  | setTemplate (name : String) (setting : TemplateSetting)
  | reopenTask (name : String) (setting : TaskSetting)
  | reopenGate (name : String) (setting : GateSetting)
  | chain (stages : List Stage)
deriving DecidableEq

namespace Request

def answer : Request → Build Answer
  | .addTask name => .place <$> Pipeline.register .task (.newTask name)
  | .addGate name => .place <$> Pipeline.register .gate (.newGate name)
  | .addTemplate name => (fun _ => .done) <$> Pipeline.addTemplate name
  | .addDirectory path globs => .directory <$> Pipeline.addDirectory path globs
  | .addCache name => .cache <$> Pipeline.addCache name
  | .addPreset preset => .name <$> Pipeline.addPreset preset
  | .setTask place setting => (fun _ => .done) <$> Pipeline.setTaskAt place setting
  | .setGate place setting => (fun _ => .done) <$> Pipeline.setGateAt place setting
  | .setTemplate name setting => (fun _ => .done) <$> Pipeline.setTemplate name setting
  | .reopenTask name setting => (fun _ => .done) <$> Pipeline.setTask name setting
  | .reopenGate name setting => (fun _ => .done) <$> Pipeline.setGate name setting
  | .chain stages => .group <$> Pipeline.chain stages

theorem leavesNoTrace_answer (request : Request) : request.answer.LeavesNoTrace := by
  cases request with
  | addTask name => exact (leavesNoTrace_register .task (.newTask name)).map _
  | addGate name => exact (leavesNoTrace_register .gate (.newGate name)).map _
  | addTemplate name => exact (leavesNoTrace_addTemplate name).map _
  | addDirectory path globs => exact (leavesNoTrace_addDirectory path globs).map _
  | addCache name => exact (leavesNoTrace_addCache name).map _
  | addPreset preset => exact (leavesNoTrace_addPreset preset).map _
  | setTask place setting => exact (leavesNoTrace_setTaskAt place setting).map _
  | setGate place setting => exact (leavesNoTrace_setGateAt place setting).map _
  | setTemplate name setting => exact (leavesNoTrace_setTemplate name setting).map _
  | reopenTask name setting => exact (leavesNoTrace_setTask name setting).map _
  | reopenGate name setting => exact (leavesNoTrace_setGate name setting).map _
  | chain stages => exact (leavesNoTrace_chain stages).map _

end Request

/-! ## Runs -/

/-- A request with what came of it. -/
abbrev Served := Request × Except Refusal Answer

namespace Pipeline

/-- Serves requests one after the other, refused ones or not: all of them with their outcomes, and
the pipeline afterwards. -/
def serve (pipeline : Pipeline) : List Request → List Served × Pipeline
  | [] => ([], pipeline)
  | request :: rest =>
      let (outcome, next) := request.answer.perform pipeline
      let (log, last) := next.serve rest
      ((request, outcome) :: log, last)

/-- Every request is served once, in order. -/
theorem map_fst_serve (pipeline : Pipeline) (requests : List Request) :
    (pipeline.serve requests).1.map Prod.fst = requests := by
  induction requests generalizing pipeline with
  | nil => rfl
  | cons request rest ih => exact congrArg (request :: ·) (ih _)

/-- Of a log, what was not refused. -/
def accepted (log : List Served) : List Served := log.filter fun served => served.2.isOk

theorem serve_accepted (pipeline : Pipeline) (requests : List Request) :
    pipeline.serve ((accepted (pipeline.serve requests).1).map Prod.fst) =
      (accepted (pipeline.serve requests).1, (pipeline.serve requests).2) := by
  induction requests generalizing pipeline with
  | nil => rfl
  | cons request rest ih =>
      rcases houtcome : request.answer.perform pipeline with ⟨refusal | answer, next⟩
      · -- A refused request is left out, and the rest starts from the same pipeline.
        have hsame : next = pipeline :=
          request.leavesNoTrace_answer pipeline refusal next houtcome
        have hserve : pipeline.serve (request :: rest) =
            ((request, .error refusal) :: (pipeline.serve rest).1, (pipeline.serve rest).2) := by
          rw [serve, houtcome, hsame]
        have haccepted : accepted ((request, .error refusal) :: (pipeline.serve rest).1) =
            accepted (pipeline.serve rest).1 := rfl
        rw [hserve]
        dsimp only
        rw [haccepted]
        exact ih pipeline
      · have hserve (others : List Request) : pipeline.serve (request :: others) =
            ((request, .ok answer) :: (next.serve others).1, (next.serve others).2) := by
          rw [serve, houtcome]
        have haccepted : accepted ((request, .ok answer) :: (next.serve rest).1) =
            (request, .ok answer) :: accepted (next.serve rest).1 := rfl
        rw [hserve]
        dsimp only
        rw [haccepted, List.map_cons, hserve, ih next]

/-- A single call that is refused leaves the whole pipeline as it was. Of a run of calls the refused
ones can be left out: the same calls are accepted with the same answers, and the pipeline is the
same in the end. -/
theorem refusals_leave_no_trace :
    (∀ (request : Request) (pipeline : Pipeline) refusal next,
      request.answer.perform pipeline = (.error refusal, next) → next = pipeline) ∧
    ∀ (pipeline : Pipeline) (requests : List Request),
      (pipeline.serve requests).1.map Prod.fst = requests ∧
      pipeline.serve ((accepted (pipeline.serve requests).1).map Prod.fst) =
        (accepted (pipeline.serve requests).1, (pipeline.serve requests).2) :=
  ⟨Request.leavesNoTrace_answer, fun pipeline requests =>
    ⟨pipeline.map_fst_serve requests, pipeline.serve_accepted requests⟩⟩

/-- A ready-made task under a name that is taken, a batch of secrets with an empty one, and a mount
at a relative path: nothing of them is left. -/
theorem refusals_of_taken_name :
    let requests : List Request := [.addTask "test", .setTask 0 (.secrets ["TOKEN", ""]),
      .addPreset .test, .addCache "deps", .setTask 0 (.mount .current "work"),
      .reopenTask "test" (.run "make")]
    let others : List Request :=
      [.addTask "test", .addCache "deps", .reopenTask "test" (.run "make")]
    let pipeline := ((withDefaults none).serve [.addTask "test"]).2
    let next := ((Request.addPreset .test).answer.perform pipeline).2
    ((Request.addPreset .test).answer.perform pipeline =
        (.error (.duplicateTask "test"), next) ∧ next = pipeline) ∧
      (withDefaults none).serve others =
        (accepted ((withDefaults none).serve requests).1,
          ((withDefaults none).serve requests).2) := by
  intro requests others pipeline next
  have hrefused : (Request.addPreset .test).answer.perform pipeline =
      (.error (.duplicateTask "test"), next) := by decide +kernel
  have hothers : (accepted ((withDefaults none).serve requests).1).map Prod.fst = others := by
    decide +kernel
  have hserve := (refusals_leave_no_trace.2 (withDefaults none) requests).2
  rw [hothers] at hserve
  exact ⟨⟨hrefused, refusals_leave_no_trace.1 _ pipeline _ next hrefused⟩, hserve⟩

end Pipeline

end CiPipeline
