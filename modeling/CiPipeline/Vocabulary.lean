/-!
# Closed vocabularies

The settings that take one of a few words. Each word has exactly one written form, and anything
else is refused with the words that would have been accepted.
-/

namespace CiPipeline

/-- A word that a vocabulary does not have. -/
structure UnknownWord where
  /-- The setting that was given the word. -/
  field : String
  value : String
  allowed : List String
deriving DecidableEq

namespace UnknownWord

def message (word : UnknownWord) : String :=
  "invalid " ++ word.field ++ " '" ++ word.value ++ "', must be one of: " ++
    ", ".intercalate word.allowed

end UnknownWord

/-- A finite type whose members are written as fixed words. -/
class Vocabulary (α : Type) where
  field : String
  members : List α
  word : α → String

namespace Vocabulary

variable {α : Type} [Vocabulary α]

def allowed (α : Type) [Vocabulary α] : List String := (members (α := α)).map word

/-- The member that is written as a text. -/
def find? (text : String) : Option α := members.find? fun member => word member == text

def parse (text : String) : Except UnknownWord α :=
  match find? text with
  | some member => .ok member
  | none => .error ⟨field α, text, allowed α⟩

end Vocabulary

/-- A member of a vocabulary, given as such or by its word. -/
inductive Choice (α : Type) where
  | member (value : α)
  | word (text : String)
deriving DecidableEq

/-- Settles a choice; only a word can be wrong. -/
def Choice.resolve [Vocabulary α] : Choice α → Except UnknownWord α
  | .member value => .ok value
  | .word text => Vocabulary.parse text

/-- How important a task is to the health of the pipeline. -/
inductive Criticality where
  | high
  | medium
  | low
deriving DecidableEq

instance : Vocabulary Criticality where
  field := "criticality"
  members := [.high, .medium, .low]
  word
    | .high => "high"
    | .medium => "medium"
    | .low => "low"

/-- What the engine's assistant does when a task fails. -/
inductive FailureAction where
  | analyze
  | retry
  | skip
deriving DecidableEq

instance : Vocabulary FailureAction where
  field := "on_fail"
  members := [.analyze, .retry, .skip]
  word
    | .analyze => "analyze"
    | .retry => "retry"
    | .skip => "skip"

/-- How the engine decides whether a task runs: when a change affects it, always, or on request. -/
inductive Selection where
  | smart
  | always
  | manual
deriving DecidableEq

instance : Vocabulary Selection where
  field := "select_mode"
  members := [.smart, .always, .manual]
  word
    | .smart => "smart"
    | .always => "always"
    | .manual => "manual"

/-- How a gate waits for approval. -/
inductive ApprovalStrategy where
  | prompt
  | env
  | file
  | webhook
deriving DecidableEq

instance : Vocabulary ApprovalStrategy where
  field := "gate_strategy"
  members := [.prompt, .env, .file, .webhook]
  word
    | .prompt => "prompt"
    | .env => "env"
    | .file => "file"
    | .webhook => "webhook"

/-- Where a secret is looked up. -/
inductive SecretSource where
  | env
  | file
  | vault
deriving DecidableEq

instance : Vocabulary SecretSource where
  field := "secret_source"
  members := [.env, .file, .vault]
  word
    | .env => "env"
    | .file => "file"
    | .vault => "vault"

/-- What kind of resource stands behind a mount. -/
inductive MountKind where
  | directory
  | cache
deriving DecidableEq

instance : Vocabulary MountKind where
  field := "mount_type"
  members := [.directory, .cache]
  word
    | .directory => "directory"
    | .cache => "cache"

/-- A vocabulary in which no two members share a word, and every member is listed. -/
class LawfulVocabulary (α : Type) [Vocabulary α] : Prop where
  find?_word (member : α) : Vocabulary.find? (Vocabulary.word member) = some member

instance : LawfulVocabulary Criticality where find?_word member := by cases member <;> decide
instance : LawfulVocabulary FailureAction where find?_word member := by cases member <;> decide
instance : LawfulVocabulary Selection where find?_word member := by cases member <;> decide
instance : LawfulVocabulary ApprovalStrategy where find?_word member := by cases member <;> decide
instance : LawfulVocabulary SecretSource where find?_word member := by cases member <;> decide
instance : LawfulVocabulary MountKind where find?_word member := by cases member <;> decide

end CiPipeline
