import CiPipeline.Pipeline.Validation

/-!
# Explanations

A pipeline in words: a line for each step with what it does, what it waits for, and what its
condition says of a given run.
-/

namespace CiPipeline

def Verdict.label : Verdict → String
  | .run => "RUN"
  | .skip => "SKIP"
  | .unknown => "when"

/-- What a condition says of a run, if a run is given. -/
def Condition.verdict (condition : Condition) (context : Option RunContext) : Verdict :=
  match context with
  | some context => condition.evaluate context
  | none => .unknown

/-- What a step does: a gate waits, a task runs its command. -/
def Step.work (step : Step) : String :=
  match step.gate? with
  | some gate => "gate (" ++ Vocabulary.word gate.strategy ++ ")"
  | none => step.settings.command.getD ""

def Step.describe (context : Option RunContext) (step : Step) : String :=
  let after :=
    if step.dependencies.isEmpty then ""
    else " (after: " ++ ", ".intercalate step.dependencies ++ ")"
  let condition := match step.condition with
    | none => ""
    | some condition =>
        " [" ++ (condition.verdict context).label ++ ": " ++ condition.text ++ "]"
  "  " ++ step.name ++ ": " ++ step.work ++ after ++ condition

namespace Pipeline

/-- The lines of a pipeline, the first of which counts the steps. -/
def describe (pipeline : Pipeline) (context : Option RunContext) : String :=
  let head := "Pipeline: " ++ toString pipeline.steps.length ++ " tasks"
  String.join ((head :: pipeline.steps.map (Step.describe context)).map (· ++ "\n"))

def explain (pipeline : Pipeline) (context : Option RunContext) : Except Refusal String :=
  pipeline.whenValid (pipeline.describe context)

end Pipeline

end CiPipeline
