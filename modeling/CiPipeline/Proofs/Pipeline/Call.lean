import CiPipeline.Pipeline.Preset
import CiPipeline.Proofs.Pipeline.Outcome
import Mathlib.Data.List.Basic

/-!
# Calls

What a call on a pipeline can do. Every call is refused and changes nothing, or makes one of a few
changes; a pipeline is reachable if calls lead to it from an empty one. What outlasts every call
outlasts computations that are put together from calls, whether they are refused or not.
-/

namespace CiPipeline

/-! ## Changes -/

namespace Pipeline

/-- All that a call can do to a pipeline, with the checks that it passed. -/
inductive Change (pipeline : Pipeline) : Pipeline → Prop where
  | none : Change pipeline pipeline
  | step {step : Step} (hname : step.name ≠ "") (hfree : pipeline.contains step.name = false)
      (hnew : step = .newTask step.name ∨ step = .newGate step.name) :
      Change pipeline (pipeline.withStep step)
  | template {name : String} (hname : name ≠ "")
      (hfree : pipeline.templates.contains name = false) :
      Change pipeline { pipeline with templates := pipeline.templates.insert name .unset }
  | directory (directory : Directory) (globs : List String) :
      Change pipeline
        { pipeline with resources := Registry.addDirectory pipeline.resources directory globs }
  | cache (cache : Cache) :
      Change pipeline { pipeline with resources := Registry.addCache pipeline.resources cache }
  | setTask {place : Nat} {step next : Step} {task : Task} (setting : TaskSetting)
      (hstep : pipeline.steps[place]? = some step) (htask : step.task? = some task)
      (hset : setting.apply pipeline.templates step task = .ok next) :
      Change pipeline { pipeline.putStep place next with
        resources := setting.registerIn pipeline.resources }
  | setGate {place : Nat} {step next : Step} {gate : Gate} (setting : GateSetting)
      (hstep : pipeline.steps[place]? = some step) (hgate : step.gate? = some gate)
      (hset : setting.apply step gate = .ok next) :
      Change pipeline (pipeline.putStep place next)
  | setTemplate {name : String} {template next : Template} (setting : TemplateSetting)
      (htemplate : pipeline.templates.get? name = some template)
      (hset : setting.apply name template = .ok next) :
      Change pipeline { pipeline with
        templates := pipeline.templates.insert name next
        resources := setting.registerIn pipeline.resources }
  | chain (stages : List Stage) : Change pipeline (link [] (stages.map Stage.tasks) pipeline).2

/-- The ways in which a computation can end: refused with the pipeline as it was, or with a change
of it. -/
def Settled (pipeline : Pipeline) (outcome : Except Refusal α × Pipeline) : Prop :=
  (∃ refusal, outcome = (.error refusal, pipeline)) ∨
    ∃ value next, outcome = (.ok value, next) ∧ Change pipeline next

theorem settled_error (refusal : Refusal) (pipeline : Pipeline) :
    Settled pipeline ((.error refusal, pipeline) : Except Refusal α × Pipeline) :=
  .inl ⟨refusal, rfl⟩

theorem settled_ok (value : α) {pipeline next : Pipeline} (h : Change pipeline next) :
    Settled pipeline (.ok value, next) :=
  .inr ⟨value, next, rfl, h⟩

theorem Settled.discard {call : Build α} {pipeline : Pipeline}
    (h : Settled pipeline (call.perform pipeline)) :
    Settled pipeline ((discard call).perform pipeline) := by
  rw [Build.perform_discard]
  rcases h with ⟨refusal, hrefused⟩ | ⟨value, next, hok, hchange⟩
  · rw [hrefused]
    exact settled_error refusal pipeline
  · rw [hok]
    exact settled_ok () hchange

/-- A check that refuses is the end; else what comes after it is settled. -/
theorem settled_ofExcept {result : Except Refusal α} {rest : α → Build β} {pipeline : Pipeline}
    (h : ∀ value, result = .ok value → Settled pipeline ((rest value).perform pipeline)) :
    Settled pipeline ((Build.ofExcept result >>= rest).perform pipeline) := by
  rw [Build.perform_bind, Build.perform_ofExcept]
  cases result with
  | error refusal => exact settled_error refusal pipeline
  | ok value => exact h value rfl

theorem settled_register (named : Named) {step : Step}
    (hnew : step = .newTask step.name ∨ step = .newGate step.name) (pipeline : Pipeline) :
    Settled pipeline ((register named step).perform pipeline) := by
  rw [register, Build.perform_bind, Build.perform_get]
  dsimp only
  by_cases hempty : step.name.isEmpty = true
  · rw [if_pos hempty]
    exact settled_error _ pipeline
  · rw [if_neg hempty]
    by_cases hknown : pipeline.contains step.name = true
    · rw [if_pos hknown]
      exact settled_error _ pipeline
    · rw [if_neg hknown]
      have hname : step.name ≠ "" := by simpa using hempty
      exact settled_ok _ (.step hname (by simpa using hknown) hnew)

theorem settled_addTemplate (name : String) (pipeline : Pipeline) :
    Settled pipeline ((addTemplate name).perform pipeline) := by
  rw [addTemplate, Build.perform_bind, Build.perform_get]
  dsimp only
  by_cases hempty : name.isEmpty = true
  · rw [if_pos hempty]
    exact settled_error _ pipeline
  · rw [if_neg hempty]
    by_cases hknown : pipeline.templates.contains name = true
    · rw [if_pos hknown]
      exact settled_error _ pipeline
    · rw [if_neg hknown]
      have hname : name ≠ "" := by simpa using hempty
      exact settled_ok _ (.template hname (by simpa using hknown))

theorem settled_addDirectory (path : String) (globs : List String) (pipeline : Pipeline) :
    Settled pipeline ((addDirectory path globs).perform pipeline) :=
  settled_ofExcept fun directory _ => settled_ok directory (.directory directory globs)

theorem settled_addCache (name : String) (pipeline : Pipeline) :
    Settled pipeline ((addCache name).perform pipeline) :=
  settled_ofExcept fun cache _ => settled_ok cache (.cache cache)

theorem settled_setTaskAt (place : Nat) (setting : TaskSetting) (pipeline : Pipeline) :
    Settled pipeline ((setTaskAt place setting).perform pipeline) := by
  cases hfound : (pipeline.steps[place]?).bind Step.task? with
  | none =>
      rw [perform_setTaskAt_of_none hfound]
      exact settled_ok () .none
  | some task =>
      obtain ⟨step, hstep, htask⟩ := Option.bind_eq_some_iff.mp hfound
      rw [perform_setTaskAt_of_task hstep htask]
      cases hset : setting.apply pipeline.templates step task with
      | error refusal => exact settled_error refusal pipeline
      | ok next => exact settled_ok () (.setTask setting hstep htask hset)

theorem settled_setGateAt (place : Nat) (setting : GateSetting) (pipeline : Pipeline) :
    Settled pipeline ((setGateAt place setting).perform pipeline) := by
  cases hfound : (pipeline.steps[place]?).bind Step.gate? with
  | none =>
      rw [perform_setGateAt_of_none hfound]
      exact settled_ok () .none
  | some gate =>
      obtain ⟨step, hstep, hgate⟩ := Option.bind_eq_some_iff.mp hfound
      rw [perform_setGateAt_of_gate hstep hgate]
      cases hset : setting.apply step gate with
      | error refusal => exact settled_error refusal pipeline
      | ok next => exact settled_ok () (.setGate setting hstep hgate hset)

theorem settled_setTemplate (name : String) (setting : TemplateSetting) (pipeline : Pipeline) :
    Settled pipeline ((setTemplate name setting).perform pipeline) := by
  cases htemplate : pipeline.templates.get? name with
  | none =>
      rw [perform_setTemplate_of_none htemplate]
      exact settled_ok () .none
  | some template =>
      rw [perform_setTemplate_of_some htemplate]
      cases hset : setting.apply name template with
      | error refusal => exact settled_error refusal pipeline
      | ok next => exact settled_ok () (.setTemplate setting htemplate hset)

theorem settled_chain (stages : List Stage) (pipeline : Pipeline) :
    Settled pipeline ((chain stages).perform pipeline) :=
  settled_ok _ (.chain stages)

/-! ## Chains -/

/-- To require steps is to put a step with more dependencies in its own place. -/
theorem require_eq (pipeline : Pipeline) (dependencies : List String) (name : String) :
    pipeline.require dependencies name = pipeline ∨
      ∃ place step, pipeline.steps[place]? = some step ∧
        pipeline.require dependencies name =
          pipeline.putStep place (step.addDependencies dependencies) := by
  rw [require]
  cases pipeline.index? name with
  | none => exact .inl rfl
  | some place =>
      dsimp only
      rw [List.modify_eq_set_getElem?]
      cases hstep : pipeline.steps[place]? with
      | none => exact .inl rfl
      | some step => exact .inr ⟨place, step, hstep, rfl⟩

section

variable {holds : Pipeline → Prop}
  (hput : ∀ {pipeline : Pipeline} {place : Nat} {step : Step} (dependencies : List String),
    holds pipeline → pipeline.steps[place]? = some step →
      holds (pipeline.putStep place (step.addDependencies dependencies)))

include hput

theorem holds_foldl_require (dependencies names : List String) {pipeline : Pipeline}
    (h : holds pipeline) : holds (names.foldl (·.require dependencies) pipeline) := by
  induction names generalizing pipeline with
  | nil => exact h
  | cons name names ih =>
      have hfirst : holds (pipeline.require dependencies name) := by
        rcases pipeline.require_eq dependencies name with hsame | ⟨place, step, hstep, hnext⟩
        · rwa [hsame]
        · rw [hnext]
          exact hput dependencies h hstep
      exact ih hfirst

/-- What outlasts that a step gets more dependencies outlasts a chain. -/
theorem holds_link (previous : List String) (stages : List (List String)) {pipeline : Pipeline}
    (h : holds pipeline) : holds (link previous stages pipeline).2 := by
  induction stages generalizing previous pipeline with
  | nil => exact h
  | cons current stages ih => exact ih current (holds_foldl_require hput previous current h)

end

end Pipeline

/-! ## Calls as data -/

/-- A single call. The builder of a task or a gate is the place of its step, that of a template its
name; a directory or a cache is a value that any pipeline takes. -/
inductive Call where
  | addTask (name : String)
  | addGate (name : String)
  | addTemplate (name : String)
  | addDirectory (path : String) (globs : List String)
  | addCache (name : String)
  | setTask (place : Nat) (setting : TaskSetting)
  | setGate (place : Nat) (setting : GateSetting)
  | setTemplate (name : String) (setting : TemplateSetting)
  | chain (stages : List Stage)

namespace Call

/-- The call without the value that it gives. -/
def run : Call → Build Unit
  | .addTask name => Pipeline.addTask name
  | .addGate name => Pipeline.addGate name
  | .addTemplate name => Pipeline.addTemplate name
  | .addDirectory path globs => discard (Pipeline.addDirectory path globs)
  | .addCache name => discard (Pipeline.addCache name)
  | .setTask place setting => Pipeline.setTaskAt place setting
  | .setGate place setting => Pipeline.setGateAt place setting
  | .setTemplate name setting => Pipeline.setTemplate name setting
  | .chain stages => discard (Pipeline.chain stages)

/-- A call is refused and changes nothing, or it makes one of the changes. -/
theorem settled (call : Call) (pipeline : Pipeline) :
    pipeline.Settled (call.run.perform pipeline) := by
  cases call with
  | addTask name => exact (Pipeline.settled_register _ (.inl rfl) pipeline).discard
  | addGate name => exact (Pipeline.settled_register _ (.inr rfl) pipeline).discard
  | addTemplate name => exact Pipeline.settled_addTemplate name pipeline
  | addDirectory path globs => exact (Pipeline.settled_addDirectory path globs pipeline).discard
  | addCache name => exact (Pipeline.settled_addCache name pipeline).discard
  | setTask place setting => exact Pipeline.settled_setTaskAt place setting pipeline
  | setGate place setting => exact Pipeline.settled_setGateAt place setting pipeline
  | setTemplate name setting => exact Pipeline.settled_setTemplate name setting pipeline
  | chain stages => exact (Pipeline.settled_chain stages pipeline).discard

/-- The pipeline after a call, refused or not. -/
def after (call : Call) (pipeline : Pipeline) : Pipeline := (call.run.perform pipeline).2

theorem change_after (call : Call) (pipeline : Pipeline) :
    pipeline.Change (call.after pipeline) := by
  rw [after]
  rcases call.settled pipeline with ⟨refusal, hrefused⟩ | ⟨value, next, hok, hchange⟩
  · rw [hrefused]
    exact .none
  · rw [hok]
    exact hchange

end Call

/-! ## Reachable pipelines -/

/-- A pipeline to which calls lead from an empty one. -/
inductive Pipeline.Reachable : Pipeline → Prop where
  | start (defaults : Option KubernetesOptions) : Reachable (.withDefaults defaults)
  | call {pipeline : Pipeline} (h : Reachable pipeline) (call : Call) :
      Reachable (call.after pipeline)

/-- What holds of empty pipelines and outlasts every change holds of reachable pipelines. -/
theorem Pipeline.Reachable.invariant {holds : Pipeline → Prop}
    (hstart : ∀ defaults, holds (.withDefaults defaults))
    (hchange : ∀ {pipeline next : Pipeline}, holds pipeline → pipeline.Change next → holds next)
    {pipeline : Pipeline} (h : pipeline.Reachable) : holds pipeline := by
  induction h with
  | start defaults => exact hstart defaults
  | call _ call ih => exact hchange ih (call.change_after _)

/-- The pipeline after calls one after the other. -/
def Pipeline.afterCalls (pipeline : Pipeline) (calls : List Call) : Pipeline :=
  calls.foldl (fun pipeline call => call.after pipeline) pipeline

theorem Pipeline.Reachable.afterCalls {pipeline : Pipeline} (h : pipeline.Reachable)
    (calls : List Call) : (pipeline.afterCalls calls).Reachable := by
  induction calls generalizing pipeline with
  | nil => exact h
  | cons call calls ih => exact ih (h.call call)

/-! ## Computations that are put together from calls -/

/-- What holds of a pipeline before every call holds of it after the call. -/
def OutlastsCalls (holds : Pipeline → Prop) : Prop :=
  ∀ (call : Call) (pipeline : Pipeline), holds pipeline → holds (call.after pipeline)

theorem outlastsCalls_reachable : OutlastsCalls Pipeline.Reachable :=
  fun call _ h => h.call call

theorem outlastsCalls_of_change {holds : Pipeline → Prop}
    (hchange : ∀ {pipeline next : Pipeline}, holds pipeline → pipeline.Change next → holds next) :
    OutlastsCalls holds :=
  fun call pipeline h => hchange h (call.change_after pipeline)

/-- What holds before the computation holds after it, whether it is refused or not. -/
def Build.Keeps (computation : Build α) (holds : Pipeline → Prop) : Prop :=
  ∀ pipeline : Pipeline, holds pipeline → holds (computation.perform pipeline).2

namespace Build

variable {holds : Pipeline → Prop}

theorem keeps_pure (value : α) : (pure value : Build α).Keeps holds :=
  fun _ h => h

theorem keeps_call (hcalls : OutlastsCalls holds) (call : Call) : call.run.Keeps holds :=
  fun pipeline h => hcalls call pipeline h

theorem keeps_of_discard (hcalls : OutlastsCalls holds) {computation : Build α} (call : Call)
    (h : discard computation = call.run) : computation.Keeps holds := by
  intro pipeline hbefore
  have hafter : holds ((discard computation).perform pipeline).2 :=
    h ▸ hcalls call pipeline hbefore
  rwa [perform_discard] at hafter

/-- A second computation may look at what the first one gave. -/
theorem Keeps.bind {first : Build α} {rest : α → Build β} (hfirst : first.Keeps holds)
    (hrest : ∀ value, (rest value).Keeps holds) : (first >>= rest).Keeps holds := by
  intro pipeline h
  have hnext := hfirst pipeline h
  rw [perform_bind]
  generalize first.perform pipeline = outcome at hnext ⊢
  obtain ⟨refusal | value, next⟩ := outcome
  · exact hnext
  · exact hrest value next hnext

theorem Keeps.tryCatch {first : Build α} {rest : Refusal → Build α} (hfirst : first.Keeps holds)
    (hrest : ∀ refusal, (rest refusal).Keeps holds) : (tryCatch first rest).Keeps holds := by
  intro pipeline h
  have hnext := hfirst pipeline h
  rw [perform_tryCatch]
  generalize first.perform pipeline = outcome at hnext ⊢
  obtain ⟨refusal | value, next⟩ := outcome
  · exact hrest refusal next hnext
  · exact hnext

theorem Keeps.map {computation : Build α} (h : computation.Keeps holds) (give : α → β) :
    (give <$> computation).Keeps holds := by
  rw [← bind_pure_comp]
  exact h.bind fun value => keeps_pure (give value)

theorem Keeps.mapM {items : List α} {build : α → Build β}
    (h : ∀ item ∈ items, (build item).Keeps holds) : (items.mapM build).Keeps holds := by
  induction items with
  | nil => exact keeps_pure []
  | cons item items ih =>
      rw [List.forall_mem_cons] at h
      rw [List.mapM_cons]
      exact h.1.bind fun first => (ih h.2).bind fun rest => keeps_pure (first :: rest)

theorem Keeps.forIn {items : List α} {build : α → Build Unit}
    (h : ∀ item ∈ items, (build item).Keeps holds) :
    (forIn items PUnit.unit fun item _ => do
      build item
      pure (ForInStep.yield PUnit.unit) : Build PUnit).Keeps holds := by
  induction items with
  | nil => exact keeps_pure ()
  | cons item items ih =>
      rw [List.forall_mem_cons] at h
      rw [List.forIn_cons]
      exact (h.1.bind fun _ => keeps_pure _).bind fun next => by
        cases next with
        | done value => exact keeps_pure value
        | yield value => exact ih h.2

end Build

namespace Pipeline

variable {holds : Pipeline → Prop}

/-- A task that is reopened by its name is set like one whose builder is at hand. -/
theorem keeps_setTask (hcalls : OutlastsCalls holds) (name : String) (setting : TaskSetting) :
    (setTask name setting).Keeps holds := by
  intro pipeline h
  rw [setTask, Build.perform_bind, Build.perform_get]
  dsimp only
  cases pipeline.taskPlace? name with
  | none => exact h
  | some place => exact hcalls (.setTask place setting) pipeline h

theorem keeps_setGate (hcalls : OutlastsCalls holds) (name : String) (setting : GateSetting) :
    (setGate name setting).Keeps holds := by
  intro pipeline h
  rw [setGate, Build.perform_bind, Build.perform_get]
  dsimp only
  cases pipeline.gatePlace? name with
  | none => exact h
  | some place => exact hcalls (.setGate place setting) pipeline h

/-- What outlasts the task of a preset and its settings outlasts the preset. -/
theorem keeps_addPreset_of_parts {preset : Preset} (hadd : (addTask preset.taskName).Keeps holds)
    (hset : ∀ setting ∈ preset.settings, (setTask preset.taskName setting).Keeps holds) :
    (addPreset preset).Keeps holds :=
  hadd.bind fun _ => (Build.Keeps.forIn hset).bind fun _ => Build.keeps_pure preset.taskName

/-- A preset leaves what its task and its settings leave as it is. -/
theorem addPreset_leaves {β : Type} (read : Pipeline → β) {preset : Preset}
    (hadd : ∀ pipeline, read ((addTask preset.taskName).perform pipeline).2 = read pipeline)
    (hset : ∀ setting ∈ preset.settings, ∀ pipeline,
      read ((setTask preset.taskName setting).perform pipeline).2 = read pipeline)
    (pipeline : Pipeline) : read ((addPreset preset).perform pipeline).2 = read pipeline := by
  let holds (next : Pipeline) : Prop := read next = read pipeline
  have hkeeps : (addPreset preset).Keeps holds :=
    keeps_addPreset_of_parts (fun next h => (hadd next).trans h)
      fun setting hsetting next h => (hset setting hsetting next).trans h
  exact hkeeps pipeline rfl

theorem keeps_addPreset (hcalls : OutlastsCalls holds) (preset : Preset) :
    (addPreset preset).Keeps holds :=
  keeps_addPreset_of_parts (Build.keeps_call hcalls (.addTask preset.taskName))
    fun setting _ => keeps_setTask hcalls preset.taskName setting

/-- What a matrix built before it was refused is kept like the rest. -/
theorem keeps_matrix (name : String) {values : List α} {build : α → Build String}
    (h : ∀ value ∈ values, (build value).Keeps holds) :
    (matrix name values build).Keeps holds :=
  (Build.Keeps.mapM h).bind fun tasks => Build.keeps_pure (TaskGroup.mk name tasks)

end Pipeline

/-! ## Pipelines side by side -/

/-- What can be done with several pipelines: start with an empty one, copy one of them, or
make a call on one. -/
inductive Move where
  | start (defaults : Option KubernetesOptions)
  | copy (place : Nat)
  | perform (place : Nat) (call : Call)

/-- The pipelines after a move. -/
def Move.after (pipelines : List Pipeline) : Move → List Pipeline
  | .start defaults => pipelines ++ [.withDefaults defaults]
  | .copy place => pipelines ++ (pipelines[place]?).toList
  | .perform place call => pipelines.modify place call.after

/-- All pipelines after some moves. -/
def workspace (moves : List Move) : List Pipeline := moves.foldl Move.after []

theorem Move.reachable_after (move : Move) {pipelines : List Pipeline}
    (h : ∀ pipeline ∈ pipelines, pipeline.Reachable) :
    ∀ pipeline ∈ move.after pipelines, pipeline.Reachable := by
  intro pipeline hmem
  cases move with
  | start defaults =>
      rw [after, List.mem_append, List.mem_singleton] at hmem
      rcases hmem with hmem | rfl
      · exact h pipeline hmem
      · exact .start defaults
  | copy place =>
      rw [after, List.mem_append, Option.mem_toList] at hmem
      rcases hmem with hmem | hmem
      · exact h pipeline hmem
      · exact h pipeline (List.mem_of_getElem? hmem)
  | perform place call =>
      obtain ⟨i, hi, rfl⟩ := List.mem_iff_getElem.mp hmem
      simp only [after, List.getElem_modify]
      split
      · exact (h _ (List.getElem_mem _)).call call
      · exact h _ (List.getElem_mem _)

/-- Copies and pipelines that share directories and caches are reachable by themselves. -/
theorem reachable_of_mem_workspace {moves : List Move} :
    ∀ pipeline ∈ workspace moves, pipeline.Reachable := by
  have hrun : ∀ pipelines : List Pipeline, (∀ pipeline ∈ pipelines, pipeline.Reachable) →
      ∀ pipeline ∈ moves.foldl Move.after pipelines, pipeline.Reachable := by
    induction moves with
    | nil => exact fun _ h => h
    | cons move moves ih => exact fun pipelines h => ih _ (move.reachable_after h)
  exact hrun [] (by simp)

end CiPipeline
