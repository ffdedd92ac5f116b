import CiPipeline.Document.Writer
import CiPipeline.Pipeline.Projection
import CiPipeline.Similarity
import CiPipeline.TaskGraph.Order

/-!
# Validation

The checks that only the whole pipeline can pass. They come in a fixed order, and the first one
that fails decides: every task has a command, every dependency is the name of a step, no step
depends on itself in a roundabout way, and all amounts are well formed.
-/

namespace CiPipeline

namespace Pipeline

def missingCommand? (pipeline : Pipeline) : Option Invalid :=
  (pipeline.steps.find? fun step => !step.isGate && isBare step.settings.command).map
    fun step => .missingCommand step.name

/-- Every step with each of its dependencies, in order of declaration. -/
def requirements (pipeline : Pipeline) : List (String × String) :=
  pipeline.steps.flatMap fun step => step.dependencies.map fun dependency => (step.name, dependency)

/-- The first dependency on a name that no step has, with the name that may be meant. -/
def unknownDependency? (pipeline : Pipeline) : Option Invalid :=
  (pipeline.requirements.find? fun (_, dependency) => !pipeline.contains dependency).map
    fun (task, dependency) =>
      .unknownDependency task dependency (Similarity.suggest? dependency pipeline.names)

/-- The steps and their dependencies as a graph without edges. -/
def graph (pipeline : Pipeline) : TaskGraph :=
  .ofList (pipeline.steps.map fun step => (step.name, step.dependencies))

def cycle? (pipeline : Pipeline) : Option Invalid := pipeline.graph.findCycle.map .cycle

/-- The options whose amounts a step is checked for: its own, or else the defaults. -/
def checkedOptions (pipeline : Pipeline) (step : Step) : Option KubernetesOptions :=
  step.settings.ownCluster?.or pipeline.defaults

/-- The first step with a malformed amount. -/
def malformedAmount? (pipeline : Pipeline) : Option Invalid :=
  pipeline.steps.findSome? fun step => do
    let (amount, value) ← (← pipeline.checkedOptions step).malformed?
    pure (.malformedAmount step.name amount value)

def problem? (pipeline : Pipeline) : Option Invalid :=
  pipeline.missingCommand?.or (pipeline.unknownDependency?.or
    (pipeline.cycle?.or pipeline.malformedAmount?))

def validate (pipeline : Pipeline) : Except Invalid Unit :=
  match pipeline.problem? with
  | some problem => .error problem
  | none => .ok ()

def whenValid (pipeline : Pipeline) (answer : α) : Except Refusal α :=
  match pipeline.validate with
  | .error problem => .error (.invalid problem)
  | .ok () => .ok answer

def document (pipeline : Pipeline) : Except Refusal Document := pipeline.whenValid pipeline.project

def text (pipeline : Pipeline) : Except Refusal String := pipeline.document.map Document.text

/-- The names of the steps that can run side by side, level by level. -/
def executionLevels (pipeline : Pipeline) : Except Refusal (List (List String)) := do
  pipeline.validate.mapError .invalid
  let levels := do
    let graph ← pipeline.graph.wire
    graph.parallelGroups
  levels.mapError .graph

end Pipeline

end CiPipeline
