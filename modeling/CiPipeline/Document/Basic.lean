import CiPipeline.OrderedMap
import CiPipeline.Vocabulary

/-!
# Pipeline documents

What the engine is given: the resources of a pipeline and its tasks in order. A field that is an
`Option` may be missing, and missing is not the same as empty.
-/

namespace CiPipeline

/-- What a task can mount: a directory of sources, if need be filtered, or a named cache. -/
inductive Resource where
  | directory (path : String) (globs : List String)
  | cache (name : String)
deriving DecidableEq

/-- The kind of a resource, as mounts name it. -/
def Resource.kind : Resource → MountKind
  | .directory _ _ => .directory
  | .cache _ => .cache

structure Mount where
  resource : String
  path : String
  kind : MountKind
deriving DecidableEq

/-- A file that another task puts out, and where it is wanted. -/
structure Artifact where
  task : String
  output : String
  destination : String
deriving DecidableEq

/-- A secret by the name that the task knows, and where its value is found. -/
structure SecretReference where
  name : String
  source : SecretSource
  key : String
deriving DecidableEq

structure Service where
  image : String
  name : String
deriving DecidableEq

structure Capability where
  name : String
  value : Option String
deriving DecidableEq

structure Gate where
  strategy : ApprovalStrategy
  /-- How many seconds the engine waits. -/
  timeout : UInt64
  message : Option String
  envVariable : Option String
  filePath : Option String
deriving DecidableEq

/-- The version of a document: without or with containers and resources. -/
inductive DocumentVersion where
  | plain
  | containers
deriving DecidableEq

instance : Vocabulary DocumentVersion where
  field := "version"
  members := [.plain, .containers]
  word
    | .plain => "1"
    | .containers => "2"

instance : LawfulVocabulary DocumentVersion where find?_word member := by cases member <;> decide

structure ClusterRequest where
  memory : Option String
  cpu : Option String
  gpu : UInt32
  raw : Option String
deriving DecidableEq

/-- A request for nothing. -/
def ClusterRequest.unset : ClusterRequest := ⟨none, none, 0, none⟩

structure Semantics where
  covers : List String
  intent : Option String
  criticality : Option Criticality
deriving DecidableEq

def Semantics.unset : Semantics := ⟨[], none, none⟩

structure Hooks where
  onFailure : Option FailureAction
  selection : Option Selection
deriving DecidableEq

def Hooks.unset : Hooks := ⟨none, none⟩

/-- A task as the engine is given it. -/
structure TaskEntry where
  name : String
  command : Option String
  container : Option String
  workdir : Option String
  env : OrderedMap String
  mounts : List Mount
  inputs : List String
  artifacts : List Artifact
  outputs : OrderedMap String
  dependencies : List String
  condition : Option String
  secrets : List String
  secretReferences : List SecretReference
  matrix : OrderedMap (List String)
  services : List Service
  retry : UInt32
  timeout : UInt64
  target : Option String
  cluster : Option ClusterRequest
  requires : List String
  provides : List Capability
  needs : List String
  semantics : Option Semantics
  hooks : Option Hooks
  gate : Option Gate
deriving DecidableEq

structure Document where
  version : DocumentVersion
  resources : OrderedMap Resource
  tasks : List TaskEntry
deriving DecidableEq

namespace Document

def task? (document : Document) (name : String) : Option TaskEntry :=
  document.tasks.find? fun task => task.name == name

end Document

end CiPipeline
