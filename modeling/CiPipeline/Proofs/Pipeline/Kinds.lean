import CiPipeline.Proofs.Pipeline.Growth
import CiPipeline.Proofs.Pipeline.Omission

/-!
# Tasks and gates

A step stays the task or the gate as which its name was registered, and it is opened again as such
only. Nothing in a step itself sees to that: what is set goes wherever its builder leads, and an
entry has all that is stored. Main statement: builders lead to steps of their kind whatever is done
with the pipeline, and in a document a task has a command and nothing of a gate, while a gate has
nothing of a task.
-/

namespace CiPipeline

namespace Pipeline

/-! ## Kinds of steps -/

/-- The name is that of the task at the place: as a task it is opened again, as a gate it is not. -/
structure IsTask (pipeline : Pipeline) (name : String) (place : Nat) : Prop where
  step : ∃ dependencies condition task,
    pipeline.steps[place]? = some ⟨name, dependencies, condition, task, none⟩
  opened : pipeline.taskPlace? name = some place
  passed : pipeline.gatePlace? name = none

/-- The name is that of the gate at the place, of which only dependencies, a condition and the
settings of a gate are kept: as a gate it is opened again, as a task it is not. -/
structure IsGate (pipeline : Pipeline) (name : String) (place : Nat) : Prop where
  step : ∃ dependencies condition gate,
    pipeline.steps[place]? = some ⟨name, dependencies, condition, .unset, some gate⟩
  opened : pipeline.gatePlace? name = some place
  passed : pipeline.taskPlace? name = none

variable {pipeline later next : Pipeline} {name : String} {place : Nat}

/-- Of all steps with the name, the map of places knows the one at the place. -/
theorem Indexed.index?_of_step (h : pipeline.Indexed) {step : Step}
    (hstep : pipeline.steps[place]? = some step) : pipeline.index? step.name = some place :=
  h.index?_eq_some_iff.mpr (getElem?_names_eq_some_iff.mpr ⟨step, hstep, rfl⟩)

theorem Indexed.name_of_index? (h : pipeline.Indexed) (hplace : pipeline.index? name = some place)
    {step : Step} (hstep : pipeline.steps[place]? = some step) : step.name = name := by
  obtain ⟨found, hfound, hname⟩ := getElem?_names_eq_some_iff.mp (h.index?_eq_some_iff.mp hplace)
  cases hstep.symm.trans hfound
  exact hname

namespace Reachable

theorem isTask (h : pipeline.Reachable) {step : Step} (hstep : pipeline.steps[place]? = some step)
    (hgate : step.gate? = none) : pipeline.IsTask step.name place := by
  have hplace := h.indexed.index?_of_step hstep
  have htask : step.task? = some step.settings := Step.task?_eq_some_iff.mpr ⟨hgate, rfl⟩
  constructor
  · refine ⟨step.dependencies, step.condition, step.settings, ?_⟩
    rw [hstep, ← hgate]
  · simp [taskPlace?, hplace, hstep, htask, Option.filter]
  · simp [gatePlace?, hplace, hstep, hgate, Option.filter]

/-- A gate could be stored with settings of a task, but on the way to a reachable pipeline it was
not given any. -/
theorem isGate (h : pipeline.Reachable) {step : Step} (hstep : pipeline.steps[place]? = some step)
    {gate : Gate} (hgate : step.gate? = some gate) : pipeline.IsGate step.name place := by
  have hplace := h.indexed.index?_of_step hstep
  have htask : step.task? = none := Step.task?_eq_none_of_gate? hgate
  have hunset : step.settings = .unset := h.exclusive (List.mem_of_getElem? hstep) gate hgate
  constructor
  · refine ⟨step.dependencies, step.condition, gate, ?_⟩
    rw [hstep, ← hgate, ← hunset]
  · simp [gatePlace?, hplace, hstep, hgate, Option.filter]
  · simp [taskPlace?, hplace, hstep, htask, Option.filter]

theorem isTask_of_taskPlace? (h : pipeline.Reachable)
    (hplace : pipeline.taskPlace? name = some place) : pipeline.IsTask name place := by
  obtain ⟨hindex, hkind⟩ := Option.filter_eq_some_iff.mp hplace
  obtain ⟨task, hfound⟩ := Option.isSome_iff_exists.mp hkind
  obtain ⟨step, hstep, htask⟩ := Option.bind_eq_some_iff.mp hfound
  rw [← h.indexed.name_of_index? hindex hstep]
  exact h.isTask hstep (Step.task?_eq_some_iff.mp htask).1

theorem isGate_of_gatePlace? (h : pipeline.Reachable)
    (hplace : pipeline.gatePlace? name = some place) : pipeline.IsGate name place := by
  obtain ⟨hindex, hkind⟩ := Option.filter_eq_some_iff.mp hplace
  obtain ⟨gate, hfound⟩ := Option.isSome_iff_exists.mp hkind
  obtain ⟨step, hstep, hgate⟩ := Option.bind_eq_some_iff.mp hfound
  rw [← h.indexed.name_of_index? hindex hstep]
  exact h.isGate hstep hgate

end Reachable

theorem IsTask.of_extends (h : pipeline.IsTask name place) (hextends : pipeline.Extends later)
    (hlater : later.Reachable) : later.IsTask name place := by
  obtain ⟨⟨dependencies, condition, task, hstep⟩, -, -⟩ := h
  obtain ⟨step, hlast, hmore⟩ := hextends.steps place _ hstep
  obtain ⟨set, hset, -⟩ := hmore.task rfl
  have hname : step.name = name := hmore.name_eq
  rw [← hname]
  exact hlater.isTask hlast (Step.task?_eq_some_iff.mp hset).1

theorem IsGate.of_extends (h : pipeline.IsGate name place) (hextends : pipeline.Extends later)
    (hlater : later.Reachable) : later.IsGate name place := by
  obtain ⟨⟨dependencies, condition, gate, hstep⟩, -, -⟩ := h
  obtain ⟨step, hlast, hmore⟩ := hextends.steps place _ hstep
  obtain ⟨set, hset⟩ := hmore.gate rfl
  have hname : step.name = name := hmore.name_eq
  rw [← hname]
  exact hlater.isGate hlast hset

/-! ## Settings through builders -/

/-- On a task it makes no difference that a setting does not look at what it is set on. -/
theorem IsTask.perform_make (h : pipeline.IsTask name place) (setting : TaskSetting) :
    (setting.make place name).perform pipeline = (setTaskAt place setting).perform pipeline := by
  obtain ⟨⟨dependencies, condition, task, hstep⟩, -, -⟩ := h
  rw [setTaskAt, Build.perform_bind, Build.perform_get]
  dsimp only
  rw [hstep]
  rfl

/-- On a gate it does: with a command set on it, a gate is emitted as a task, too. -/
example :
    let pipeline := (withDefaults none).withStep (.newGate "approve")
    let next := (((TaskSetting.run "make").make 0 "approve").perform pipeline).2
    next.project.tasks.map TaskEntry.command = [some "make"] ∧
      next.project.tasks.map TaskEntry.gate = [some .initial] := by decide

theorem IsGate.perform_make (h : pipeline.IsGate name place) (setting : GateSetting) :
    (setting.make place name).perform pipeline = (setGateAt place setting).perform pipeline := by
  obtain ⟨⟨dependencies, condition, gate, hstep⟩, -, -⟩ := h
  rw [setGateAt, Build.perform_bind, Build.perform_get]
  dsimp only
  rw [hstep]
  rfl

/-! ## What is registered -/

/-- What is registered stands at the place that is given. -/
theorem getElem?_steps_of_register {named : Named} {step : Step}
    (h : (register named step).perform pipeline = (.ok place, next)) :
    next.steps[place]? = some step := by
  obtain ⟨rfl, rfl⟩ := register_eq_ok h
  rw [withStep, names, List.length_map, List.getElem?_concat_length]

theorem extends_of_register {named : Named} {step : Step}
    (h : (register named step).perform pipeline = (.ok place, next)) : pipeline.Extends next := by
  rw [(register_eq_ok h).1]
  exact extends_withStep pipeline step

/-- What is ready-made is a task from the registration of its name on. -/
theorem Reachable.isTask_of_addPreset (h : pipeline.Reachable) {preset : Preset}
    (hadd : (addPreset preset).perform pipeline = (.ok name, next)) :
    ∃ place, next.IsTask name place := by
  have hnext : next.Reachable := by
    have hkept := keeps_addPreset outlastsCalls_reachable preset pipeline h
    rwa [hadd] at hkept
  rw [addPreset, Build.perform_bind, addTask, Build.perform_discard] at hadd
  rcases hregister : (register .task (.newTask preset.taskName)).perform pipeline with
    ⟨refusal | place, registered⟩
  · rw [hregister] at hadd
    cases hadd
  · have htask : registered.IsTask preset.taskName place :=
      ((Opens.task hregister).keeps outlastsCalls_reachable h).isTask
        (getElem?_steps_of_register hregister) rfl
    rw [hregister] at hadd
    dsimp only [Except.map] at hadd
    have hsettings : ∀ setting ∈ preset.settings,
        (setTask preset.taskName setting).Keeps registered.Extends :=
      fun setting _ => keeps_setTask (outlastsCalls_extends registered) preset.taskName setting
    have hgrown := Build.Keeps.forIn hsettings registered (.refl registered)
    rw [Build.perform_bind] at hadd
    split at hadd
    · rename_i value last hset
      cases hadd
      rw [hset] at hgrown
      exact ⟨place, htask.of_extends hgrown hnext⟩
    · cases hadd

end Pipeline

/-! ## Workbenches -/

/-- A builder of a task or of a gate as it is held: the name of the step and its place. -/
inductive StepBuilder where
  | task (name : String) (place : Nat)
  | gate (name : String) (place : Nat)

/-- The builder through which a step is set up. -/
def Step.builder (step : Step) (place : Nat) : StepBuilder :=
  if step.isGate then .gate step.name place else .task step.name place

/-- The builder leads to a step of its kind. -/
def StepBuilder.Fits (pipeline : Pipeline) : StepBuilder → Prop
  | .task name place => pipeline.IsTask name place
  | .gate name place => pipeline.IsGate name place

theorem StepBuilder.Fits.of_extends {builder : StepBuilder} {pipeline later : Pipeline}
    (h : builder.Fits pipeline) (hextends : pipeline.Extends later) (hlater : later.Reachable) :
    builder.Fits later := by
  cases builder with
  | task => exact Pipeline.IsTask.of_extends h hextends hlater
  | gate => exact Pipeline.IsGate.of_extends h hextends hlater

theorem Pipeline.Reachable.fits_builder {pipeline : Pipeline} (h : pipeline.Reachable)
    {step : Step} {place : Nat} (hstep : pipeline.steps[place]? = some step) :
    (step.builder place).Fits pipeline := by
  rw [Step.builder, Step.isGate]
  cases hgate : step.gate? with
  | none => exact h.isTask hstep hgate
  | some gate => exact h.isGate hstep hgate

/-- A pipeline in the making, with the builders that are held of its steps. -/
structure Workbench where
  pipeline : Pipeline
  builders : List StepBuilder

namespace Workbench

open Pipeline

def start (defaults : Option KubernetesOptions) : Workbench := ⟨.withDefaults defaults, []⟩

/-- The workbench with one more builder, and with the pipeline as it was when that was opened. -/
def hold (bench : Workbench) (builder : StepBuilder) (pipeline : Pipeline) : Workbench :=
  ⟨pipeline, builder :: bench.builders⟩

/-- One thing that is done: calls are made, a builder is opened, or something is set through one
that is held. It is set at the place of the builder, whatever stands there by then. What a matrix
does one after the other is as well many such things, with builders in the midst of them. -/
inductive Next (bench : Workbench) : Workbench → Prop where
  | perform {α : Type} {computation : Build α} (hcomposed : computation.Composed) :
      Next bench { bench with pipeline := (computation.perform bench.pipeline).2 }
  | addTask {name : String} {place : Nat} {pipeline : Pipeline}
      (hadd : (register .task (.newTask name)).perform bench.pipeline = (.ok place, pipeline)) :
      Next bench (bench.hold (.task name place) pipeline)
  | addGate {name : String} {place : Nat} {pipeline : Pipeline}
      (hadd : (register .gate (.newGate name)).perform bench.pipeline = (.ok place, pipeline)) :
      Next bench (bench.hold (.gate name place) pipeline)
  | reopenTask {name : String} {place : Nat}
      (hplace : bench.pipeline.taskPlace? name = some place) :
      Next bench (bench.hold (.task name place) bench.pipeline)
  | reopenGate {name : String} {place : Nat}
      (hplace : bench.pipeline.gatePlace? name = some place) :
      Next bench (bench.hold (.gate name place) bench.pipeline)
  | setTask {name : String} {place : Nat} (hheld : .task name place ∈ bench.builders)
      (setting : TaskSetting) :
      Next bench { bench with pipeline := ((setting.make place name).perform bench.pipeline).2 }
  | setGate {name : String} {place : Nat} (hheld : .gate name place ∈ bench.builders)
      (setting : GateSetting) :
      Next bench { bench with pipeline := ((setting.make place name).perform bench.pipeline).2 }

/-- What can be done one after the other. -/
def Reaches : Workbench → Workbench → Prop := Relation.ReflTransGen Next

/-- Whatever is done, the builder leads to a step of its kind. -/
def Keeps (bench : Workbench) (builder : StepBuilder) : Prop :=
  ∀ later, bench.Reaches later → builder.Fits later.pipeline

/-- The pipeline is reachable, and all builders lead to steps of their kinds. -/
structure Sound (bench : Workbench) : Prop where
  reachable : bench.pipeline.Reachable
  fits : ∀ builder ∈ bench.builders, builder.Fits bench.pipeline

variable {bench later : Workbench}

theorem sound_start (defaults : Option KubernetesOptions) : (start defaults).Sound :=
  ⟨.start defaults, List.forall_mem_nil _⟩

theorem Sound.perform (h : bench.Sound) {α : Type} {computation : Build α}
    (hcomposed : computation.Composed) :
    Sound { bench with pipeline := (computation.perform bench.pipeline).2 } := by
  have hlater := hcomposed.keeps outlastsCalls_reachable bench.pipeline h.reachable
  exact ⟨hlater, fun builder hheld =>
    (h.fits builder hheld).of_extends (hcomposed.extends bench.pipeline) hlater⟩

/-- What leads where a request leads keeps what a request keeps. -/
theorem Sound.of_request (h : bench.Sound) (request : Request) {pipeline : Pipeline}
    (hsame : pipeline = (request.answer.perform bench.pipeline).2) :
    bench.pipeline.Extends pipeline ∧ Sound { bench with pipeline } := by
  subst hsame
  have hcomposed : request.answer.Composed := .request request
  exact ⟨hcomposed.extends bench.pipeline, h.perform hcomposed⟩

theorem Sound.hold (h : bench.Sound) {builder : StepBuilder} {pipeline : Pipeline}
    (hextends : bench.pipeline.Extends pipeline) (hreachable : pipeline.Reachable)
    (hfits : builder.Fits pipeline) : (bench.hold builder pipeline).Sound := by
  refine ⟨hreachable, List.forall_mem_cons.mpr ⟨hfits, fun other hother => ?_⟩⟩
  exact (h.fits other hother).of_extends hextends hreachable

theorem Sound.register (h : bench.Sound) {named : Named} {step : Step} {place : Nat}
    {pipeline : Pipeline}
    (hadd : (Pipeline.register named step).perform bench.pipeline = (.ok place, pipeline))
    (hreachable : pipeline.Reachable) : (bench.hold (step.builder place) pipeline).Sound :=
  h.hold (extends_of_register hadd) hreachable
    (hreachable.fits_builder (getElem?_steps_of_register hadd))

theorem Sound.addTask (h : bench.Sound) {name : String} {place : Nat} {pipeline : Pipeline}
    (hadd : (Pipeline.register .task (.newTask name)).perform bench.pipeline =
      (.ok place, pipeline)) : (bench.hold (.task name place) pipeline).Sound :=
  h.register hadd ((Opens.task hadd).keeps outlastsCalls_reachable h.reachable)

theorem Sound.addGate (h : bench.Sound) {name : String} {place : Nat} {pipeline : Pipeline}
    (hadd : (Pipeline.register .gate (.newGate name)).perform bench.pipeline =
      (.ok place, pipeline)) : (bench.hold (.gate name place) pipeline).Sound :=
  h.register hadd ((Opens.gate hadd).keeps outlastsCalls_reachable h.reachable)

theorem Sound.addPreset (h : bench.Sound) {preset : Preset} {name : String} {pipeline : Pipeline}
    (hadd : (Pipeline.addPreset preset).perform bench.pipeline = (.ok name, pipeline)) :
    ∃ place, (bench.hold (.task name place) pipeline).Sound := by
  have hreachable := keeps_addPreset outlastsCalls_reachable preset bench.pipeline h.reachable
  have hextends := keeps_addPreset (outlastsCalls_extends bench.pipeline) preset _ (.refl _)
  rw [hadd] at hreachable hextends
  obtain ⟨place, htask⟩ := h.reachable.isTask_of_addPreset hadd
  exact ⟨place, h.hold hextends hreachable htask⟩

/-- What is done keeps all that there is, and all builders lead to steps of their kinds. So what is
set through a builder might as well be set by a call that looks at the kind first. -/
theorem Sound.next (h : bench.Sound) (hnext : bench.Next later) :
    bench.pipeline.Extends later.pipeline ∧ later.Sound := by
  cases hnext with
  | perform hcomposed => exact ⟨hcomposed.extends bench.pipeline, h.perform hcomposed⟩
  | addTask hadd => exact ⟨extends_of_register hadd, h.addTask hadd⟩
  | addGate hadd => exact ⟨extends_of_register hadd, h.addGate hadd⟩
  | reopenTask hplace =>
      have htask := h.reachable.isTask_of_taskPlace? hplace
      exact ⟨.refl _, h.hold (.refl _) h.reachable htask⟩
  | reopenGate hplace =>
      have hgate := h.reachable.isGate_of_gatePlace? hplace
      exact ⟨.refl _, h.hold (.refl _) h.reachable hgate⟩
  | @setTask name place hheld setting =>
      have htask : bench.pipeline.IsTask name place := h.fits _ hheld
      refine h.of_request (.setTask place setting) ?_
      rw [Request.answer, Build.perform_map, htask.perform_make]
  | @setGate name place hheld setting =>
      have hgate : bench.pipeline.IsGate name place := h.fits _ hheld
      refine h.of_request (.setGate place setting) ?_
      rw [Request.answer, Build.perform_map, hgate.perform_make]

theorem Sound.reaches (h : bench.Sound) (hreaches : bench.Reaches later) :
    bench.pipeline.Extends later.pipeline ∧ later.Sound := by
  induction hreaches with
  | refl => exact ⟨.refl _, h⟩
  | tail _ hnext ih =>
      obtain ⟨hextends, hlater⟩ := ih
      obtain ⟨hmore, hlast⟩ := hlater.next hnext
      exact ⟨hextends.trans hmore, hlast⟩

theorem Sound.keeps (h : bench.Sound) {builder : StepBuilder}
    (hfits : builder.Fits bench.pipeline) : bench.Keeps builder := by
  intro later hreaches
  obtain ⟨hextends, hlater⟩ := h.reaches hreaches
  exact hfits.of_extends hextends hlater.reachable

/-- A builder that was just opened. -/
theorem Sound.keeps_held {builder : StepBuilder} {pipeline : Pipeline}
    (h : (bench.hold builder pipeline).Sound) : (bench.hold builder pipeline).Keeps builder :=
  h.keeps (h.fits builder List.mem_cons_self)

end Workbench

/-! ## Entries -/

/-- The entry of a task: it has a command, and it is no gate. -/
structure TaskEntry.Runs (entry : TaskEntry) : Prop where
  command : ∃ command, entry.command = some command ∧ command ≠ ""
  gate : entry.gate = none

/-- The entry of a gate: there is nothing to run, and nothing to run it with. -/
structure TaskEntry.Waits (entry : TaskEntry) : Prop where
  gate : ∃ gate, entry.gate = some gate
  command : entry.command = none
  container : entry.container = none
  workdir : entry.workdir = none
  env : entry.env = .empty
  mounts : entry.mounts = []
  outputs : entry.outputs = .empty
  secrets : entry.secrets = []

theorem Step.runs_entry {step : Step} (hgate : step.gate? = none) (hcommanded : step.Commanded)
    (defaults : Option KubernetesOptions) : (step.entry defaults).Runs where
  command := hcommanded step.settings (task?_eq_some_iff.mpr ⟨hgate, rfl⟩)
  gate := hgate

/-- An entry has what is stored, so that this hangs on what was kept from a gate. -/
theorem Step.waits_entry {step : Step} (h : step.Exclusive) {gate : Gate}
    (hgate : step.gate? = some gate) (defaults : Option KubernetesOptions) :
    (step.entry defaults).Waits := by
  have hunset : step.settings = .unset := h gate hgate
  rw [entry, hunset]
  exact ⟨⟨gate, hgate⟩, rfl, rfl, rfl, rfl, rfl, rfl, rfl⟩

/-! ## Written entries -/

namespace Json

/-- The members of a task as it is written: among them a command, and no gate. -/
structure WritesTask (members : List (Content × Json)) : Prop where
  command : ∃ command, command ≠ "" ∧ (some "command", ofString command) ∈ members
  gate : ∀ value, (some "gate", value) ∉ members

/-- The members of a gate as it is written: among them the gate, and none of those that say what
to run, where and with what. -/
structure WritesGate (members : List (Content × Json)) : Prop where
  gate : ∃ value, (some "gate", value) ∈ members
  rest : ∀ name ∈ ["command", "container", "workdir", "env", "mounts", "outputs", "secrets"],
    ∀ value, (some name, value) ∉ members

theorem not_mem_fields {members : List Member} (hnodup : (members.map Prod.fst).Nodup)
    {name : String} (h : (name, none) ∈ members) (value : Json) :
    (some name, value) ∉ fields members := by
  rw [mem_fields]
  intro hvalue
  cases eq_of_mem_members hnodup h hvalue

end Json

open Json

theorem TaskEntry.Runs.writesTask {entry : TaskEntry} (h : entry.Runs) :
    WritesTask (Json.fields entry.members) where
  command := by
    obtain ⟨command, hcommand, hnonempty⟩ := h.command
    exact ⟨command, hnonempty, mem_fields.mpr (by simp [members, ifSome, hcommand])⟩
  gate := not_mem_fields entry.nodup_members (by simp [members, ifSome, h.gate])

theorem TaskEntry.Waits.writesGate {entry : TaskEntry} (h : entry.Waits) :
    WritesGate (Json.fields entry.members) where
  gate := by
    obtain ⟨gate, hgate⟩ := h.gate
    exact ⟨gate.toJson, mem_fields.mpr (by simp [members, ifSome, hgate])⟩
  rest name hname := by
    refine not_mem_fields entry.nodup_members ?_
    simp only [List.mem_cons, List.not_mem_nil, or_false] at hname
    rcases hname with rfl | rfl | rfl | rfl | rfl | rfl | rfl
    case inl => simp [members, ifSome, h.command]
    case inr.inl => simp [members, ifSome, h.container]
    case inr.inr.inl => simp [members, ifSome, h.workdir]
    case inr.inr.inr.inl => simp [members, ifEntries, h.env, OrderedMap.isEmpty]
    case inr.inr.inr.inr.inl => simp [members, ifItems, h.mounts]
    case inr.inr.inr.inr.inr.inl => simp [members, ifEntries, h.outputs, OrderedMap.isEmpty]
    case inr.inr.inr.inr.inr.inr => simp [members, ifItems, h.secrets]

/-! ## Kinds for good -/

namespace Pipeline

theorem runs_or_waits {pipeline : Pipeline} (h : pipeline.Reachable)
    (hcommanded : pipeline.Commanded) {entry : TaskEntry}
    (hentry : entry ∈ pipeline.project.tasks) :
    pipeline.hasTask entry.name = true ∧ entry.Runs ∨
      pipeline.hasGate entry.name = true ∧ entry.Waits := by
  obtain ⟨step, hstep, rfl⟩ := mem_tasks_project.mp hentry
  obtain ⟨place, hplace⟩ := List.mem_iff_getElem?.mp hstep
  have hname : (step.entry pipeline.defaults).name = step.name := rfl
  rw [hname]
  cases hgate : step.gate? with
  | none =>
      refine .inl ⟨?_, step.runs_entry hgate (hcommanded step hstep) _⟩
      rw [hasTask, (h.isTask hplace hgate).opened, Option.isSome_some]
  | some gate =>
      refine .inr ⟨?_, step.waits_entry (h.exclusive hstep) hgate _⟩
      rw [hasGate, (h.isGate hplace hgate).opened, Option.isSome_some]

/-- Whatever is done with a pipeline, and whatever is set through the builders of its steps, each
step stays a task or a gate, its builders lead to it as such, and so does a builder that comes from
a registration. In a document each entry is that of a task with a command or that of a gate with
nothing to run, and so it is written. -/
theorem tasks_and_gates_stay {defaults : Option KubernetesOptions} {bench : Workbench}
    (h : (Workbench.start defaults).Reaches bench) :
    (∀ place (step : Step), bench.pipeline.steps[place]? = some step →
      bench.Keeps (step.builder place)) ∧
    (∀ builder ∈ bench.builders, bench.Keeps builder) ∧
    (∀ name place next,
      (register .task (.newTask name)).perform bench.pipeline = (.ok place, next) →
        (bench.hold (.task name place) next).Keeps (.task name place)) ∧
    (∀ preset name next, (addPreset preset).perform bench.pipeline = (.ok name, next) →
      ∃ place, (bench.hold (.task name place) next).Keeps (.task name place)) ∧
    (∀ name place next,
      (register .gate (.newGate name)).perform bench.pipeline = (.ok place, next) →
        (bench.hold (.gate name place) next).Keeps (.gate name place)) ∧
    ∀ document, bench.pipeline.document = .ok document →
      (∀ entry ∈ document.tasks, bench.pipeline.hasTask entry.name = true ∧ entry.Runs ∨
        bench.pipeline.hasGate entry.name = true ∧ entry.Waits) ∧
      ∃ json, Json.parse? document.text = some json ∧
        ∀ members, json.Occurs .task members → WritesTask members ∨ WritesGate members := by
  obtain ⟨-, hsound⟩ := (Workbench.sound_start defaults).reaches h
  refine ⟨fun place step hstep => hsound.keeps (hsound.reachable.fits_builder hstep),
    fun builder hheld => hsound.keeps (hsound.fits builder hheld),
    fun name place next hadd => (hsound.addTask hadd).keeps_held,
    fun preset name next hadd => ?_,
    fun name place next hadd => (hsound.addGate hadd).keeps_held,
    fun document hdocument => ?_⟩
  · obtain ⟨place, hheld⟩ := hsound.addPreset hadd
    exact ⟨place, hheld.keeps_held⟩
  · obtain ⟨hvalid, rfl⟩ := document_eq_ok_iff.mp hdocument
    have hcommanded := ((validate_eq_ok_iff hsound.reachable.indexed).mp hvalid).commanded
    have hentries : ∀ entry ∈ bench.pipeline.project.tasks,
        bench.pipeline.hasTask entry.name = true ∧ entry.Runs ∨
          bench.pipeline.hasGate entry.name = true ∧ entry.Waits :=
      fun entry => runs_or_waits hsound.reachable hcommanded
    refine ⟨hentries, _, Json.parse?_compact (Document.faithful.readable _), ?_⟩
    intro members hoccurs
    obtain ⟨record, ⟨entry, hentry, rfl⟩, rfl⟩ := hoccurs.hasRecord
    rcases hentries entry hentry with ⟨-, hruns⟩ | ⟨-, hwaits⟩
    · exact .inl hruns.writesTask
    · exact .inr hwaits.writesGate

/-- A gate behind a task with a template, both set up through their builders: the gate is not opened
as a task, nor is its name registered for one, and in the document it comes without a container. -/
theorem gate_stays_beside_template :
    let setup : Build Answer := do
      let _ ← (Request.addTemplate "rust").answer
      (Request.setTemplate "rust" (.container "rust:1")).answer
    let built := ((register .task (.newTask "build")).perform
      (setup.perform (withDefaults none)).2).2
    let running := (((TaskSetting.run "make").make 0 "build").perform built).2
    let bench : Workbench :=
      ⟨(((TaskSetting.template "rust").make 0 "build").perform running).2, [.task "build" 0]⟩
    let next := ((register .gate (.newGate "approve")).perform bench.pipeline).2
    let finish : Build Answer := do
      let _ ← (Request.reopenTask "approve" (.template "rust")).answer
      let _ ← (Request.chain [.task "build", .task "approve"]).answer
      (Request.addTask "approve").answer
    let timed := (((GateSetting.timeout 60).make 1 "approve").perform next).2
    let later : Workbench := ⟨(finish.perform timed).2, [.gate "approve" 1, .task "build" 0]⟩
    (Workbench.start none).Reaches bench ∧
      (register .gate (.newGate "approve")).perform bench.pipeline = (.ok 1, next) ∧
      (bench.hold (.gate "approve" 1) next).Reaches later ∧ later.pipeline.IsGate "approve" 1 ∧
      later.pipeline.document = .ok later.pipeline.project ∧
      later.pipeline.project.tasks.map TaskEntry.container = [some "rust:1", none] ∧
      ∀ entry ∈ later.pipeline.project.tasks,
        later.pipeline.hasTask entry.name = true ∧ entry.Runs ∨
          later.pipeline.hasGate entry.name = true ∧ entry.Waits := by
  intro setup built running bench next finish timed later
  have hsetup : setup.Composed := .bind (.request _) fun _ => .request _
  have hfinish : finish.Composed :=
    .bind (.request _) fun _ => .bind (.request _) fun _ => .request _
  have htask : (register .task (.newTask "build")).perform (setup.perform (withDefaults none)).2 =
      (.ok 0, built) := by decide +kernel
  have hgate : (register .gate (.newGate "approve")).perform bench.pipeline = (.ok 1, next) := by
    decide +kernel
  have hbuilt : (Workbench.start none).Reaches ⟨built, [.task "build" 0]⟩ :=
    .tail (.single (.perform hsetup)) (.addTask htask)
  have hrunning : (Workbench.start none).Reaches ⟨running, [.task "build" 0]⟩ :=
    hbuilt.tail (.setTask List.mem_cons_self (.run "make"))
  have hbench : (Workbench.start none).Reaches bench :=
    hrunning.tail (.setTask List.mem_cons_self (.template "rust"))
  have hnext : (bench.hold (.gate "approve" 1) next).Reaches later :=
    .tail (.single (.setGate List.mem_cons_self (.timeout 60))) (.perform hfinish)
  have hdocument : later.pipeline.document = .ok later.pipeline.project := by decide +kernel
  have hcontainers : later.pipeline.project.tasks.map TaskEntry.container =
      [some "rust:1", none] := by decide +kernel
  obtain ⟨-, -, -, -, hgates, -⟩ := tasks_and_gates_stay hbench
  obtain ⟨-, -, -, -, -, hdocuments⟩ :=
    tasks_and_gates_stay ((hbench.tail (.addGate hgate)).trans hnext)
  exact ⟨hbench, hgate, hnext, hgates "approve" 1 next hgate later hnext, hdocument, hcontainers,
    (hdocuments _ hdocument).1⟩

end Pipeline

end CiPipeline
