import CiPipeline.Kubernetes
import CiPipeline.Sink
import CiPipeline.TaskGraph.Basic
import CiPipeline.Vocabulary

/-!
# Errors

Why a call on a pipeline is refused, one constructor for each cause, and how a cause is put into
words: a message, a code that tools can look up, and for some causes a hint.
-/

namespace CiPipeline

/-- What a name is given to. -/
inductive Named where
  | task
  | gate
  | template
  | directory
  | cache
deriving DecidableEq

def Named.describe : Named → String
  | .task => "task name"
  | .gate => "gate name"
  | .template => "template name"
  | .directory => "directory path"
  | .cache => "cache name"

inductive Owner where
  | task (name : String)
  | template (name : String)
deriving DecidableEq

def Owner.describe : Owner → String
  | .task name => "task '" ++ name ++ "'"
  | .template name => "template '" ++ name ++ "'"

inductive Invalid where
  | missingCommand (task : String)
  /-- A task depends on a name that no task has; a similar name may be suggested. -/
  | unknownDependency (task dependency : String) (suggestion : Option String)
  /-- A way along dependencies from a task back to itself. -/
  | cycle (path : List String)
  | malformedAmount (task : String) (amount : KubernetesOptions.Amount) (value : String)
deriving DecidableEq

namespace Invalid

def kind : Invalid → String
  | .missingCommand .. => "MISSING_COMMAND"
  | .unknownDependency .. => "UNKNOWN_DEPENDENCY"
  | .cycle .. => "CYCLE_DETECTED"
  | .malformedAmount .. => "INVALID_K8S"

/-- The task that is to blame; for a cycle the one where it starts. -/
def task : Invalid → String
  | .missingCommand task => task
  | .unknownDependency task .. => task
  | .cycle path => path.head?.getD ""
  | .malformedAmount task .. => task

def suggestion : Invalid → Option String
  | .unknownDependency _ _ suggestion => suggestion
  | _ => none

def path : Invalid → List String
  | .cycle path => path
  | _ => []

def message : Invalid → String
  | .missingCommand task => "task '" ++ task ++ "' has no command"
  | .unknownDependency task dependency suggestion =>
      let hint := match suggestion with
        | some name => " (did you mean '" ++ name ++ "'?)"
        | none => ""
      "task '" ++ task ++ "' depends on unknown task '" ++ dependency ++ "'" ++ hint
  | .cycle path => "dependency cycle: " ++ " -> ".intercalate path
  | .malformedAmount task amount value =>
      "task '" ++ task ++ "': invalid k8s " ++ amount.name ++ " format '" ++ value ++
        "' (expected e.g. " ++ amount.examples ++ ")"

def help? (problem : Invalid) : Option String :=
  problem.suggestion.map fun name => "did you mean '" ++ name ++ "'?"

end Invalid

/-- Why a call is refused. -/
inductive Refusal where
  | emptyName (named : Named)
  | duplicateTask (name : String)
  | duplicateTemplate (name : String)
  /-- The name of a cache looks like the id of a directory. -/
  | reservedCacheName (name : String)
  | emptyCommand (task : String)
  | zeroTimeout (task : String)
  | zeroGateTimeout (gate : String)
  | relativeMountPath (owner : Owner) (path : String)
  | emptyContainerImage (owner : Owner)
  | emptyEnvKey (owner : Owner)
  | emptySecretName (task : String)
  | emptyCapability (task : String)
  /-- A secret is declared under one name and refers to another. -/
  | secretNameMismatch (task name reference : String)
  | unknownTemplate (task template : String)
  | unknownWord (word : UnknownWord)
  | malformedSettings
  | invalid (problem : Invalid)
  /-- The graph of the steps has no order; validation rules this out. -/
  | graph (error : TaskGraph.Error)
  /-- A document could not be written out. -/
  | unwritten (failure : SinkFailure)
  /-- A text could not be written out, or a sink not flushed. -/
  | sink (failure : SinkFailure)
deriving DecidableEq

namespace Refusal

/-- The beginning of the ids of directories, which no cache may use. -/
def reservedPrefix : String := "src:"

/-- What is wrong, in words; bad settings carry no words of their own. -/
def message? : Refusal → Option String
  | .emptyName named => some (named.describe ++ " cannot be empty")
  | .duplicateTask name => some ("task '" ++ name ++ "' already exists")
  | .duplicateTemplate name => some ("template '" ++ name ++ "' already exists")
  | .reservedCacheName name =>
      some ("cache name '" ++ name ++ "' cannot start with '" ++ reservedPrefix ++ "'")
  | .emptyCommand task => some ("task '" ++ task ++ "': command cannot be empty")
  | .zeroTimeout task => some ("task '" ++ task ++ "': timeout must be greater than zero")
  | .zeroGateTimeout gate => some ("task '" ++ gate ++ "': gate timeout must be greater than zero")
  | .relativeMountPath owner path =>
      some (owner.describe ++ ": mount path must be absolute, got '" ++ path ++ "'")
  | .emptyContainerImage owner => some (owner.describe ++ ": container image cannot be empty")
  | .emptyEnvKey owner => some (owner.describe ++ ": env key cannot be empty")
  | .emptySecretName task => some ("task '" ++ task ++ "': secret name cannot be empty")
  | .emptyCapability task => some ("task '" ++ task ++ "': capability name cannot be empty")
  | .secretNameMismatch task name reference =>
      some ("task '" ++ task ++ "': secret '" ++ name ++ "' does not match reference name '" ++
        reference ++ "'")
  | .unknownTemplate task template =>
      some ("task '" ++ task ++ "': unknown template '" ++ template ++ "'")
  | .unknownWord word => some word.message
  | .malformedSettings => none
  | .invalid problem => some problem.message
  | .graph error => some error.message
  | .unwritten failure => some ("Serialization error: " ++ failure.message)
  | .sink failure => some ("I/O error: " ++ failure.message)

/-- The code under which the cause can be looked up. -/
def code : Refusal → String
  | .emptyName .. => "sykli::builder::empty_name"
  | .duplicateTask .. => "sykli::builder::duplicate"
  | .duplicateTemplate .. => "sykli::builder::duplicate"
  | .reservedCacheName .. => "sykli::builder::reserved_cache_name"
  | .emptyCommand .. => "sykli::builder::empty_command"
  | .zeroTimeout .. => "sykli::builder::invalid_timeout"
  | .zeroGateTimeout .. => "sykli::builder::invalid_timeout"
  | .relativeMountPath .. => "sykli::builder::relative_mount_path"
  | .emptyContainerImage .. => "sykli::builder::empty_container_image"
  | .emptyEnvKey .. => "sykli::builder::empty_env_key"
  | .emptySecretName .. => "sykli::builder::empty_secret_name"
  | .emptyCapability .. => "sykli::builder::empty_capability"
  | .secretNameMismatch .. => "sykli::builder::secret_name_mismatch"
  | .unknownTemplate .. => "sykli::builder::unknown_template"
  | .unknownWord .. => "sykli::ir::invalid_enum_value"
  | .malformedSettings => "sykli::config::invalid"
  | .invalid problem => "sykli::validate::" ++ problem.kind
  | .graph .. => "sykli::graph"
  | .unwritten .. => "sykli::serialization"
  | .sink .. => "sykli::io"

/-- A hint on how to mend the call, where there is one. -/
def help? : Refusal → Option String
  | .reservedCacheName .. => some "directory resources use ids of the form 'src:<path>'"
  | .relativeMountPath .. =>
      some "container paths start with '/', e.g. '/work' or '/root/.cache'"
  | .invalid problem => problem.help?
  | _ => none

end Refusal

end CiPipeline
