import CiPipeline.Document.Basic
import CiPipeline.Json.Record

/-!
# Documents as JSON

The members of each object in the order in which they are written. An optional member is left out
where it has nothing to say: no value, no items, no entries, or zero.
-/

namespace CiPipeline

open Json

def Resource.members : Resource → List Member
  | .directory path globs => [always "path" (ofString path), ifItems "globs" ofString globs]
  | .cache name => [always "name" (ofString name)]

/-- The kind of a resource is written in front of its members. -/
def Resource.toJson (resource : Resource) : Json :=
  ofMembers (always "type" (ofMember resource.kind) :: resource.members)

def Mount.members (mount : Mount) : List Member :=
  [always "resource" (ofString mount.resource), always "path" (ofString mount.path),
    always "type" (ofMember mount.kind)]

def Mount.toJson (mount : Mount) : Json := ofMembers mount.members

def Artifact.members (artifact : Artifact) : List Member :=
  [always "from_task" (ofString artifact.task),
    always "output" (ofString artifact.output), always "dest" (ofString artifact.destination)]

def Artifact.toJson (artifact : Artifact) : Json := ofMembers artifact.members

def SecretReference.members (reference : SecretReference) : List Member :=
  [always "name" (ofString reference.name),
    always "source" (ofMember reference.source), always "key" (ofString reference.key)]

def SecretReference.toJson (reference : SecretReference) : Json := ofMembers reference.members

def Service.members (service : Service) : List Member :=
  [always "image" (ofString service.image), always "name" (ofString service.name)]

def Service.toJson (service : Service) : Json := ofMembers service.members

def ClusterRequest.members (request : ClusterRequest) : List Member :=
  [ifSome "memory" ofString request.memory, ifSome "cpu" ofString request.cpu,
    ifPositive "gpu" request.gpu.toNat, ifSome "raw" ofString request.raw]

def ClusterRequest.toJson (request : ClusterRequest) : Json := ofMembers request.members

def Capability.members (capability : Capability) : List Member :=
  [always "name" (ofString capability.name), ifSome "value" ofString capability.value]

def Capability.toJson (capability : Capability) : Json := ofMembers capability.members

def Semantics.members (semantics : Semantics) : List Member :=
  [ifItems "covers" ofString semantics.covers, ifSome "intent" ofString semantics.intent,
    ifSome "criticality" ofMember semantics.criticality]

def Semantics.toJson (semantics : Semantics) : Json := ofMembers semantics.members

def Hooks.members (hooks : Hooks) : List Member :=
  [ifSome "on_fail" ofMember hooks.onFailure, ifSome "select" ofMember hooks.selection]

def Hooks.toJson (hooks : Hooks) : Json := ofMembers hooks.members

def Gate.members (gate : Gate) : List Member :=
  [always "strategy" (ofMember gate.strategy), ifPositive "timeout" gate.timeout.toNat,
    ifSome "message" ofString gate.message, ifSome "env_var" ofString gate.envVariable,
    ifSome "file_path" ofString gate.filePath]

def Gate.toJson (gate : Gate) : Json := ofMembers gate.members

def TaskEntry.members (task : TaskEntry) : List Member :=
  [ always "name" (ofString task.name),
    ifSome "command" ofString task.command,
    ifSome "container" ofString task.container,
    ifSome "workdir" ofString task.workdir,
    ifEntries "env" ofString task.env,
    ifItems "mounts" Mount.toJson task.mounts,
    ifItems "inputs" ofString task.inputs,
    ifItems "task_inputs" Artifact.toJson task.artifacts,
    ifEntries "outputs" ofString task.outputs,
    ifItems "depends_on" ofString task.dependencies,
    ifSome "when" ofString task.condition,
    ifItems "secrets" ofString task.secrets,
    ifItems "secret_refs" SecretReference.toJson task.secretReferences,
    ifEntries "matrix" (ofList ofString) task.matrix,
    ifItems "services" Service.toJson task.services,
    ifPositive "retry" task.retry.toNat,
    ifPositive "timeout" task.timeout.toNat,
    ifSome "target" ofString task.target,
    ifSome "k8s" ClusterRequest.toJson task.cluster,
    ifItems "requires" ofString task.requires,
    ifItems "provides" Capability.toJson task.provides,
    ifItems "needs" ofString task.needs,
    ifSome "semantic" Semantics.toJson task.semantics,
    ifSome "ai_hooks" Hooks.toJson task.hooks,
    ifSome "gate" Gate.toJson task.gate]

def TaskEntry.toJson (task : TaskEntry) : Json := ofMembers task.members

def Document.members (document : Document) : List Member :=
  [ always "version" (ofMember document.version),
    ifEntries "resources" Resource.toJson document.resources,
    always "tasks" (ofList TaskEntry.toJson document.tasks)]

def Document.toJson (document : Document) : Json := ofMembers document.members

def TaskEntry.text (task : TaskEntry) : String := task.toJson.compact

def Document.text (document : Document) : String := document.toJson.compact

end CiPipeline
