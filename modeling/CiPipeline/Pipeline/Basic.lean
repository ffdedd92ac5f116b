import CiPipeline.Pipeline.Registry
import CiPipeline.Pipeline.Step

/-!
# Pipelines

The state of a pipeline that is being built, and the calls that register something in it. A call
is a computation that may be refused; the pipeline outlives the refusal.
-/

namespace CiPipeline

structure Pipeline where
  /-- Tasks and gates in order of declaration. -/
  steps : List Step
  /-- The place of each name in that order. -/
  places : OrderedMap Nat
  resources : Registry
  templates : OrderedMap Template
  /-- What tasks without cluster settings of their own ask of a cluster. -/
  defaults : Option KubernetesOptions
deriving DecidableEq

abbrev Build := ExceptT Refusal (StateM Pipeline)

namespace Build

/-- The outcome of a call on a pipeline, and the pipeline afterwards. -/
def perform (call : Build α) (pipeline : Pipeline) : Except Refusal α × Pipeline :=
  ExceptT.run call pipeline

/-- Refuses to go on if something is wrong. -/
def refuseIf (wrong : Bool) (refusal : Refusal) : Build Unit :=
  if wrong then throw refusal else pure ()

/-- Goes on if a check has not failed. -/
def ofExcept (result : Except Refusal α) : Build α :=
  match result with
  | .ok value => pure value
  | .error refusal => throw refusal

end Build

namespace Pipeline

def empty : Pipeline := ⟨[], .empty, .empty, .empty, none⟩

/-- An empty pipeline with settings for tasks that have none of their own. -/
def withDefaults (defaults : Option KubernetesOptions) : Pipeline := { empty with defaults }

instance : Inhabited Pipeline := ⟨empty⟩

def names (pipeline : Pipeline) : List String := pipeline.steps.map Step.name

def index? (pipeline : Pipeline) (name : String) : Option Nat := pipeline.places.get? name

def contains (pipeline : Pipeline) (name : String) : Bool := pipeline.places.contains name

/-- The place of a task that is to be set up further; gates are passed over. -/
def taskPlace? (pipeline : Pipeline) (name : String) : Option Nat :=
  (pipeline.index? name).filter fun place =>
    ((pipeline.steps[place]?).bind Step.task?).isSome

/-- The place of a gate that is to be set up further; tasks are passed over. -/
def gatePlace? (pipeline : Pipeline) (name : String) : Option Nat :=
  (pipeline.index? name).filter fun place =>
    ((pipeline.steps[place]?).bind Step.gate?).isSome

def hasTask (pipeline : Pipeline) (name : String) : Bool := (pipeline.taskPlace? name).isSome

def hasGate (pipeline : Pipeline) (name : String) : Bool := (pipeline.gatePlace? name).isSome

def putStep (pipeline : Pipeline) (place : Nat) (step : Step) : Pipeline :=
  { pipeline with steps := pipeline.steps.set place step }

def withStep (pipeline : Pipeline) (step : Step) : Pipeline :=
  { pipeline with
    steps := pipeline.steps ++ [step]
    places := pipeline.places.insert step.name pipeline.steps.length }

/-- Registers a step and gives its place. Tasks and gates share one set of names. -/
def register (named : Named) (step : Step) : Build Nat := do
  let pipeline ← get
  if step.name.isEmpty then throw (.emptyName named)
  else if pipeline.contains step.name then throw (.duplicateTask step.name)
  else
    set (pipeline.withStep step)
    pure pipeline.steps.length

def addTask (name : String) : Build Unit := discard (register .task (.newTask name))

def addGate (name : String) : Build Unit := discard (register .gate (.newGate name))

def addTemplate (name : String) : Build Unit := do
  let pipeline ← get
  if name.isEmpty then throw (.emptyName .template)
  else if pipeline.templates.contains name then throw (.duplicateTemplate name)
  else set { pipeline with templates := pipeline.templates.insert name .unset }

/-- Registers a directory with globs that restrict it, and gives it to be mounted. -/
def addDirectory (path : String) (globs : List String) : Build Directory := do
  let directory ← Build.ofExcept (Directory.ofPath path)
  modify fun pipeline =>
    { pipeline with resources := Registry.addDirectory pipeline.resources directory globs }
  pure directory

/-- Registers a cache and gives it to be mounted. -/
def addCache (name : String) : Build Cache := do
  let cache ← Build.ofExcept (Cache.ofName name)
  modify fun pipeline => { pipeline with resources := Registry.addCache pipeline.resources cache }
  pure cache

end Pipeline

end CiPipeline
