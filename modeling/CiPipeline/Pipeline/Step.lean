import CiPipeline.Condition
import CiPipeline.Document.Basic
import CiPipeline.Kubernetes

/-!
# Steps of a pipeline

A step is a task, which runs a command, or a gate, which waits for approval. Both have a name,
depend on other steps by name, and may be bound to a condition, and both are stored alike: what a
task runs stands beside what a gate waits for. A template holds settings that tasks can take over.
-/

namespace CiPipeline

/-- The settings of a task. What is not set is empty, zero or `none`. -/
structure Task where
  command : Option String
  container : Option String
  workdir : Option String
  env : OrderedMap String
  mounts : List Mount
  inputs : List String
  artifacts : List Artifact
  outputs : OrderedMap String
  /-- The paths of outputs that have no name of their own. -/
  unnamedOutputs : List String
  secrets : List String
  secretReferences : List SecretReference
  matrix : OrderedMap (List String)
  services : List Service
  retry : UInt32
  timeout : UInt64
  target : Option String
  cluster : Option KubernetesOptions
  /-- Cluster settings passed through as they stand, in place of those in `cluster`. -/
  clusterRaw : String
  requires : List String
  provides : List Capability
  needs : List String
  covers : List String
  intent : Option String
  criticality : Option Criticality
  onFailure : Option FailureAction
  selection : Option Selection
deriving DecidableEq

def Task.unset : Task where
  command := none
  container := none
  workdir := none
  env := .empty
  mounts := []
  inputs := []
  artifacts := []
  outputs := .empty
  unnamedOutputs := []
  secrets := []
  secretReferences := []
  matrix := .empty
  services := []
  retry := 0
  timeout := 0
  target := none
  cluster := none
  clusterRaw := ""
  requires := []
  provides := []
  needs := []
  covers := []
  intent := none
  criticality := none
  onFailure := none
  selection := none

/-- A gate as it is first registered: it asks at a prompt and waits for an hour. -/
def Gate.initial : Gate := ⟨.prompt, 3600, none, none, none⟩

/-- A step as it is stored. Nothing in it keeps a gate from having settings of a task. -/
structure Step where
  name : String
  /-- The names of the steps that come before this one, each once. -/
  dependencies : List String
  condition : Option Condition
  settings : Task
  /-- What a gate waits for. Where there is something to wait for, the step is a gate. -/
  gate? : Option Gate
deriving DecidableEq

/-- An optional text that is missing or empty. -/
def isBare (text : Option String) : Bool := (text.getD "").isEmpty

/-- An optional text, taken as missing if it is empty. -/
def nonempty? (text : Option String) : Option String := text.filter fun text => !text.isEmpty

namespace Step

def newTask (name : String) : Step := ⟨name, [], none, .unset, none⟩

def newGate (name : String) : Step := ⟨name, [], none, .unset, some .initial⟩

def isGate (step : Step) : Bool := step.gate?.isSome

/-- The settings of a step that is no gate. -/
def task? (step : Step) : Option Task := if step.isGate then none else some step.settings

/-- Adds a dependency, unless its name is empty or there already. -/
def addDependency (step : Step) (name : String) : Step :=
  if name.isEmpty || step.dependencies.contains name then step
  else { step with dependencies := step.dependencies ++ [name] }

def addDependencies (step : Step) (names : List String) : Step := names.foldl addDependency step

theorem task?_eq_some_iff {step : Step} {task : Task} :
    step.task? = some task ↔ step.gate? = none ∧ step.settings = task := by
  unfold task? isGate
  cases step.gate? <;> simp

theorem task?_eq_none_iff {step : Step} : step.task? = none ↔ step.gate? ≠ none := by
  unfold task? isGate
  cases step.gate? <;> simp

/-- A gate is no task. -/
theorem task?_eq_none_of_gate? {step : Step} {gate : Gate} (h : step.gate? = some gate) :
    step.task? = none :=
  task?_eq_none_iff.mpr (h ▸ Option.some_ne_none gate)

@[simp] theorem name_addDependency (step : Step) (name : String) :
    (step.addDependency name).name = step.name := by
  unfold addDependency
  split <;> rfl

@[simp] theorem settings_addDependency (step : Step) (name : String) :
    (step.addDependency name).settings = step.settings := by
  unfold addDependency
  split <;> rfl

@[simp] theorem gate?_addDependency (step : Step) (name : String) :
    (step.addDependency name).gate? = step.gate? := by
  unfold addDependency
  split <;> rfl

@[simp] theorem condition_addDependency (step : Step) (name : String) :
    (step.addDependency name).condition = step.condition := by
  unfold addDependency
  split <;> rfl

/-- What a step depends on has nothing to do with its settings. -/
theorem addDependency_of_settings (step : Step) (settings : Task) (name : String) :
    ({ step with settings } : Step).addDependency name =
      { step with dependencies := (step.addDependency name).dependencies, settings } := by
  unfold addDependency
  dsimp only
  split <;> rfl

@[simp] theorem name_addDependencies (step : Step) (names : List String) :
    (step.addDependencies names).name = step.name := by
  induction names generalizing step with
  | nil => rfl
  | cons name names ih => simpa [addDependencies] using ih (step.addDependency name)

@[simp] theorem settings_addDependencies (step : Step) (names : List String) :
    (step.addDependencies names).settings = step.settings := by
  induction names generalizing step with
  | nil => rfl
  | cons name names ih => simpa [addDependencies] using ih (step.addDependency name)

@[simp] theorem gate?_addDependencies (step : Step) (names : List String) :
    (step.addDependencies names).gate? = step.gate? := by
  induction names generalizing step with
  | nil => rfl
  | cons name names ih => simpa [addDependencies] using ih (step.addDependency name)

@[simp] theorem condition_addDependencies (step : Step) (names : List String) :
    (step.addDependencies names).condition = step.condition := by
  induction names generalizing step with
  | nil => rfl
  | cons name names ih => simpa [addDependencies] using ih (step.addDependency name)

@[simp] theorem task?_addDependencies (step : Step) (names : List String) :
    (step.addDependencies names).task? = step.task? := by
  rw [task?, isGate, gate?_addDependencies, settings_addDependencies, task?, isGate]

/-- More dependencies are all that is new. -/
theorem addDependencies_eq (step : Step) (names : List String) :
    step.addDependencies names =
      { step with dependencies := (step.addDependencies names).dependencies } := by
  have hname := name_addDependencies step names
  have hcondition := condition_addDependencies step names
  have hsettings := settings_addDependencies step names
  have hgate := gate?_addDependencies step names
  rw [← hname, ← hcondition, ← hsettings, ← hgate]

end Step

structure Template where
  container : Option String
  workdir : Option String
  env : OrderedMap String
  mounts : List Mount
deriving DecidableEq

def Template.unset : Template := ⟨none, none, .empty, []⟩

end CiPipeline
