import CiPipeline.Document.Basic
import CiPipeline.Json.Record

/-!
# Documents from JSON

Each record names its fields in their order, which is the order of the items where a record is
given as an array. A field that the writer may leave out has the value for which it is left out
as its default.
-/

namespace CiPipeline

open Json

/-- How deeply arrays and objects may be nested in the entry of a resource. -/
def Resource.maxDepth : Nat := 125

/-- An entry of the resources: its kind is named by its tag. -/
def Resource.ofJson? (json : Json) : Option Resource := do
  guard (json.isSound && json.depth ≤ maxDepth)
  let (kind, entry) ← tagged? "type" json
  match ← Vocabulary.find? kind with
  | MountKind.directory => do
      let record ← record? ["path", "globs"] entry
      pure (.directory (← record.required "path" string?)
        (← record.withDefault "globs" [] (list? string?)))
  | MountKind.cache => do
      let record ← record? ["name"] entry
      pure (.cache (← record.required "name" string?))

def Mount.ofJson? (json : Json) : Option Mount := do
  let record ← record? ["resource", "path", "type"] json
  pure {
    resource := ← record.required "resource" string?
    path := ← record.required "path" string?
    kind := ← record.required "type" member? }

def Artifact.ofJson? (json : Json) : Option Artifact := do
  let record ← record? ["from_task", "output", "dest"] json
  pure {
    task := ← record.required "from_task" string?
    output := ← record.required "output" string?
    destination := ← record.required "dest" string? }

def SecretReference.ofJson? (json : Json) : Option SecretReference := do
  let record ← record? ["name", "source", "key"] json
  pure {
    name := ← record.required "name" string?
    source := ← record.required "source" member?
    key := ← record.required "key" string? }

def Service.ofJson? (json : Json) : Option Service := do
  let record ← record? ["image", "name"] json
  pure {
    image := ← record.required "image" string?
    name := ← record.required "name" string? }

def ClusterRequest.ofJson? (json : Json) : Option ClusterRequest := do
  let record ← record? ["memory", "cpu", "gpu", "raw"] json
  pure {
    memory := ← record.optional "memory" string?
    cpu := ← record.optional "cpu" string?
    gpu := ← record.withDefault "gpu" 0 uint32?
    raw := ← record.optional "raw" string? }

def Capability.ofJson? (json : Json) : Option Capability := do
  let record ← record? ["name", "value"] json
  pure {
    name := ← record.required "name" string?
    value := ← record.optional "value" string? }

def Semantics.ofJson? (json : Json) : Option Semantics := do
  let record ← record? ["covers", "intent", "criticality"] json
  pure {
    covers := ← record.withDefault "covers" [] (list? string?)
    intent := ← record.optional "intent" string?
    criticality := ← record.optional "criticality" member? }

def Hooks.ofJson? (json : Json) : Option Hooks := do
  let record ← record? ["on_fail", "select"] json
  pure {
    onFailure := ← record.optional "on_fail" member?
    selection := ← record.optional "select" member? }

def Gate.ofJson? (json : Json) : Option Gate := do
  let record ← record? ["strategy", "timeout", "message", "env_var", "file_path"] json
  pure {
    strategy := ← record.required "strategy" member?
    timeout := ← record.withDefault "timeout" 0 uint64?
    message := ← record.optional "message" string?
    envVariable := ← record.optional "env_var" string?
    filePath := ← record.optional "file_path" string? }

def TaskEntry.fields : List String :=
  ["name", "command", "container", "workdir", "env", "mounts", "inputs", "task_inputs", "outputs",
    "depends_on", "when", "secrets", "secret_refs", "matrix", "services", "retry", "timeout",
    "target", "k8s", "requires", "provides", "needs", "semantic", "ai_hooks", "gate"]

def TaskEntry.ofJson? (json : Json) : Option TaskEntry := do
  let record ← record? fields json
  pure {
    name := ← record.required "name" string?
    command := ← record.optional "command" string?
    container := ← record.optional "container" string?
    workdir := ← record.optional "workdir" string?
    env := ← record.withDefault "env" .empty (map? string?)
    mounts := ← record.withDefault "mounts" [] (list? Mount.ofJson?)
    inputs := ← record.withDefault "inputs" [] (list? string?)
    artifacts := ← record.withDefault "task_inputs" [] (list? Artifact.ofJson?)
    outputs := ← record.withDefault "outputs" .empty (map? string?)
    dependencies := ← record.withDefault "depends_on" [] (list? string?)
    condition := ← record.optional "when" string?
    secrets := ← record.withDefault "secrets" [] (list? string?)
    secretReferences := ← record.withDefault "secret_refs" [] (list? SecretReference.ofJson?)
    matrix := ← record.withDefault "matrix" .empty (map? (list? string?))
    services := ← record.withDefault "services" [] (list? Service.ofJson?)
    retry := ← record.withDefault "retry" 0 uint32?
    timeout := ← record.withDefault "timeout" 0 uint64?
    target := ← record.optional "target" string?
    cluster := ← record.optional "k8s" ClusterRequest.ofJson?
    requires := ← record.withDefault "requires" [] (list? string?)
    provides := ← record.withDefault "provides" [] (list? Capability.ofJson?)
    needs := ← record.withDefault "needs" [] (list? string?)
    semantics := ← record.optional "semantic" Semantics.ofJson?
    hooks := ← record.optional "ai_hooks" Hooks.ofJson?
    gate := ← record.optional "gate" Gate.ofJson? }

def Document.ofJson? (json : Json) : Option Document := do
  let record ← record? ["version", "resources", "tasks"] json
  pure {
    version := ← record.required "version" member?
    resources := ← record.withDefault "resources" .empty (map? Resource.ofJson?)
    tasks := ← record.required "tasks" (list? TaskEntry.ofJson?) }

def Document.parse? (text : String) : Option Document := (Json.parse? text).bind ofJson?

end CiPipeline
