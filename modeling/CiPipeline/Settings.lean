import CiPipeline.Pipeline.Basic
import CiPipeline.Toml.Reader

/-!
# Settings of a pipeline

What a settings file in TOML may say: the cluster options of tasks that have none of their own.
Nothing else is let through, neither an unknown key nor a value of another type.
-/

namespace CiPipeline

structure Settings where
  defaults : Option KubernetesOptions
deriving DecidableEq

namespace Settings

open Toml

def text? : Value → Option String
  | .string text => some text
  | _ => none

def count? : Value → Option UInt32
  | .integer text => do
      let n ← integer? text.toList
      if 0 ≤ n ∧ n < UInt32.size then some (UInt32.ofNat n.toNat) else none
  | _ => none

def field? (value : Option Value) (default : α) (read : Value → Option α) : Option α :=
  match value with
  | none => some default
  | some value => read value

def options? (memory cpu gpu raw : Option Value) : Option KubernetesOptions := do
  pure {
    memory := ← field? memory "" text?
    cpu := ← field? cpu "" text?
    gpu := ← field? gpu 0 count?
    raw := ← field? raw "" text? }

/-- Options given as a table of their fields, or as an array of them in order; items that stand
behind the last field are passed over. -/
def optionsOf? : Value → Option KubernetesOptions
  | .table _ entries =>
      if entries.all fun entry => ["memory", "cpu", "gpu", "raw"].contains entry.1 then
        options? (entries.lookup "memory") (entries.lookup "cpu") (entries.lookup "gpu")
          (entries.lookup "raw")
      else none
  | .array items => options? items[0]? items[1]? items[2]? items[3]?
  | _ => none

def parse (text : String) : Except Refusal Settings :=
  match Toml.parse? text with
  | some [] => .ok ⟨none⟩
  | some [("k8s_defaults", value)] =>
      match optionsOf? value with
      | some options => .ok ⟨some options⟩
      | none => .error .malformedSettings
  | _ => .error .malformedSettings

end Settings

/-- An empty pipeline with the settings of a file. -/
def Pipeline.ofSettings (settings : Settings) : Pipeline := .withDefaults settings.defaults

end CiPipeline
