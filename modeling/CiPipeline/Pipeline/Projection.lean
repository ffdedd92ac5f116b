import CiPipeline.Document.Basic
import CiPipeline.Pipeline.Basic

/-!
# The document of a pipeline

What the engine is told about each step. Texts that were set to nothing count as not set, blocks in
which nothing is set are left out, and outputs without a name are given one.
-/

namespace CiPipeline

/-- A text, taken as missing if it is empty. -/
def given? (text : String) : Option String := nonempty? (some text)

namespace KubernetesOptions

/-- What the engine is told about options, unless nothing is asked. -/
def request? (options : KubernetesOptions) : Option ClusterRequest :=
  let request : ClusterRequest :=
    ⟨given? options.memory, given? options.cpu, options.gpu, given? options.raw⟩
  if request = .unset then none else some request

/-- The options with settings passed through in place of their own, if there are any. -/
def override (options : KubernetesOptions) (raw : String) : KubernetesOptions :=
  if raw.isEmpty then options else { options with raw }

/-- The options that stand in for those of a task: settings passed through are not among them. -/
def withoutRaw (options : KubernetesOptions) : KubernetesOptions := { options with raw := "" }

end KubernetesOptions

/-- The cluster options of a task, if they ask anything. -/
def Task.ownCluster? (task : Task) : Option KubernetesOptions :=
  task.cluster.filter fun options => !options.isEmpty

/-- What a step asks of the cluster. With settings of its own it asks for these alone, without any
it asks for the defaults. -/
def clusterRequest? (defaults : Option KubernetesOptions) (task : Task) : Option ClusterRequest :=
  match task.ownCluster? with
  | some options => (options.override task.clusterRaw).request?
  | none =>
      if task.clusterRaw.isEmpty then defaults.bind fun options => options.withoutRaw.request?
      else (KubernetesOptions.unset.override task.clusterRaw).request?

/-! ## Names for outputs -/

/-- The name of an unnamed output by its place, with its place appended `copies` more times. -/
def outputName (place copies : Nat) : String :=
  "output_" ++ toString place ++ String.join (List.replicate copies ("_" ++ toString place))

/-- The first name for an unnamed output, from `copies` repetitions on, that no entry has. Among
one more name than there are entries one is free. -/
def freshName (entries : OrderedMap String) (place : Nat) : Nat → Nat → String
  | 0, copies => outputName place copies
  | fuel + 1, copies =>
      if entries.contains (outputName place copies) then
        freshName entries place fuel (copies + 1)
      else outputName place copies

/-- Adds outputs without names, the first of which has the given place. -/
def addUnnamed (entries : OrderedMap String) : Nat → List String → OrderedMap String
  | _, [] => entries
  | place, path :: rest =>
      addUnnamed (entries.insert (freshName entries place entries.size 0) path) (place + 1) rest

/-- All outputs by name: the named ones, then those without a name. -/
def mergeOutputs (named : OrderedMap String) (unnamed : List String) : OrderedMap String :=
  addUnnamed named 0 unnamed

/-! ## Steps -/

def Task.semantics? (task : Task) : Option Semantics :=
  let semantics : Semantics := ⟨task.covers, nonempty? task.intent, task.criticality⟩
  if semantics = .unset then none else some semantics

def Task.hooks? (task : Task) : Option Hooks :=
  let hooks : Hooks := ⟨task.onFailure, task.selection⟩
  if hooks = .unset then none else some hooks

/-- What the engine is told about a step: all that is stored of it, whether it is a task or a
gate. -/
def Step.entry (defaults : Option KubernetesOptions) (step : Step) : TaskEntry :=
  let task := step.settings
  { name := step.name
    command := task.command
    container := task.container
    workdir := nonempty? task.workdir
    env := task.env
    mounts := task.mounts
    inputs := task.inputs
    artifacts := task.artifacts
    outputs := mergeOutputs task.outputs task.unnamedOutputs
    dependencies := step.dependencies
    condition := nonempty? (step.condition.map Condition.text)
    secrets := task.secrets
    secretReferences := task.secretReferences
    matrix := task.matrix
    services := task.services
    retry := task.retry
    timeout := task.timeout
    target := nonempty? task.target
    cluster := clusterRequest? defaults task
    requires := task.requires
    provides := task.provides
    needs := task.needs
    semantics := task.semantics?
    hooks := task.hooks?
    gate := step.gate? }

def Step.usesContainer (step : Step) : Bool :=
  step.settings.container.isSome || !step.settings.mounts.isEmpty

namespace Pipeline

def version (pipeline : Pipeline) : DocumentVersion :=
  if !pipeline.resources.isEmpty || pipeline.steps.any Step.usesContainer then .containers
  else .plain

/-- What the engine is told about a pipeline, valid or not. -/
def project (pipeline : Pipeline) : Document where
  version := pipeline.version
  resources :=
    match pipeline.version with
    | .containers => pipeline.resources
    | .plain => .empty
  tasks := pipeline.steps.map (Step.entry pipeline.defaults)

end Pipeline

end CiPipeline
