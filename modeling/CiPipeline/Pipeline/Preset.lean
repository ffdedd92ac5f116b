import CiPipeline.Pipeline.Setting

/-!
# Ready-made tasks

The tasks that every project built by cargo has: its tests, its lints and its release build.
-/

namespace CiPipeline

inductive Preset where
  | test
  | lint
  /-- The release build with the path of what it puts out. -/
  | build (output : String)
deriving DecidableEq

namespace Preset

def taskName : Preset → String
  | .test => "test"
  | .lint => "lint"
  | .build _ => "build"

def command : Preset → String
  | .test => "cargo test"
  | .lint => "cargo clippy -- -D warnings"
  | .build _ => "cargo build --release"

/-- The files that any of the tasks reads. -/
def inputs : List String := ["**/*.rs", "Cargo.toml", "Cargo.lock"]

def settings (preset : Preset) : List TaskSetting :=
  let common := [TaskSetting.run preset.command, .inputs inputs]
  match preset with
  | .build output => common ++ [.outputs [output]]
  | _ => common

end Preset

/-- Registers the task of a preset and gives its name. -/
def Pipeline.addPreset (preset : Preset) : Build String := do
  addTask preset.taskName
  for setting in preset.settings do
    setTask preset.taskName setting
  pure preset.taskName

end CiPipeline
