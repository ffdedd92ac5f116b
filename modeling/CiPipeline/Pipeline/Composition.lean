import CiPipeline.Pipeline.Basic

/-!
# Composition

Groups of steps, and the calls that order steps or make many of them at once.
-/

namespace CiPipeline

/-- Steps under one name. -/
structure TaskGroup where
  name : String
  tasks : List String
deriving DecidableEq

/-- The steps that come last in a group; its members are not ordered, so these are all of them. -/
def TaskGroup.last (group : TaskGroup) : List String := group.tasks

inductive Stage where
  | task (name : String)
  | group (group : TaskGroup)
deriving DecidableEq

def Stage.tasks : Stage → List String
  | .task name => [name]
  | .group g => g.tasks

namespace Pipeline

/-- Makes a step depend on others; a name without a step is passed over. -/
def require (pipeline : Pipeline) (dependencies : List String) (name : String) : Pipeline :=
  match pipeline.index? name with
  | none => pipeline
  | some place =>
      { pipeline with steps := pipeline.steps.modify place (·.addDependencies dependencies) }

/-- Lets each list of names depend on the one before it. Gives the last list, too. -/
def link : List String → List (List String) → Pipeline → List String × Pipeline
  | previous, [], pipeline => (previous, pipeline)
  | previous, current :: rest, pipeline =>
      link current rest (current.foldl (·.require previous) pipeline)

/-- Runs stages one after the other: each step of a stage depends on all of the stage before. -/
def chain (stages : List Stage) : Build TaskGroup := do
  let pipeline ← get
  let (last, pipeline) := link [] (stages.map Stage.tasks) pipeline
  set pipeline
  pure ⟨"chain", last⟩

/-- Builds one step for each value and gathers them under a name. A refusal ends the call; what was
built before it stays. -/
def matrix (name : String) (values : List α) (build : α → Build String) : Build TaskGroup := do
  let tasks ← values.mapM build
  pure ⟨name, tasks⟩

end Pipeline

end CiPipeline
