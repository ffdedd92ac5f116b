import CiPipeline.Pipeline.Emission
import CiPipeline.Pipeline.Preset
import CiPipeline.Document.Reader
import CiPipeline.Settings
import CiPipeline.Proofs.Document.RoundTrip
import CiPipeline.Proofs.Pipeline.Mounts
import CiPipeline.Proofs.Pipeline.Validation
import CiPipeline.Proofs.Pipeline.Amounts
import CiPipeline.Proofs.Pipeline.Each
import CiPipeline.Proofs.Pipeline.Refusal
import CiPipeline.Proofs.Document.Omission
import CiPipeline.Proofs.Pipeline.Artifacts
import CiPipeline.Proofs.Pipeline.Omission
import CiPipeline.Proofs.Pipeline.Chain
import CiPipeline.Proofs.Pipeline.Kinds
import CiPipeline.Proofs.Pipeline.Version
import CiPipeline.Proofs.Pipeline.Outputs
import CiPipeline.Proofs.Pipeline.Interleaving
import CiPipeline.Proofs.TaskGraph.Chains
import CiPipeline.Proofs.TaskGraph.Recursion
import CiPipeline.Proofs.Json.Stream
import CiPipeline.Proofs.Pipeline.Emission
import CiPipeline.Proofs.Condition.Comparison
import CiPipeline.Proofs.Condition.Tree
import CiPipeline.Proofs.Pipeline.History
import CiPipeline.Proofs.Pipeline.Explanation
import CiPipeline.Proofs.Document.Rewriting
import CiPipeline.Proofs.Pipeline.Precedence
import CiPipeline.Proofs.Pipeline.Registration
import CiPipeline.Proofs.Condition.Evaluation
import CiPipeline.Proofs.Similarity.Score
import CiPipeline.Proofs.Quantity
import CiPipeline.Proofs.Pipeline.Suggestion
import CiPipeline.Proofs.Pipeline.Cluster
import CiPipeline.Proofs.TaskGraph.Iteration
