import CiPipeline.Json.Stream
import CiPipeline.Pipeline.Explanation

/-!
# Writing out

The document of a valid pipeline is put out part by part, and then the sink is flushed. An
explanation is written as a whole, and the sink is not flushed.
-/

namespace CiPipeline

namespace Pipeline

/-- Writes the document of a valid pipeline and flushes the sink. -/
def emitTo (pipeline : Pipeline) (sink : Sink) : Except Refusal Unit × Sink :=
  match pipeline.document with
  | .error refusal => (.error refusal, sink)
  | .ok document =>
      match document.toJson.stream.into sink with
      | (.error failure, sink) => (.error (.unwritten failure), sink)
      | (.ok (), sink) =>
          let (outcome, sink) := sink.flush
          (outcome.mapError .sink, sink)

def explainTo (pipeline : Pipeline) (sink : Sink) (context : Option RunContext) :
    Except Refusal Unit × Sink :=
  match pipeline.explain context with
  | .error refusal => (.error refusal, sink)
  | .ok text =>
      let (outcome, sink) := sink.write (Text.utf8 text.toList)
      (outcome.mapError .sink, sink)

end Pipeline

end CiPipeline
