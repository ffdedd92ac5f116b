import CiPipeline.Quantity

/-!
# Kubernetes options

The resources that a task asks of a cluster.
-/

namespace CiPipeline

/-- What a task asks of a cluster; an empty text or a zero asks nothing. -/
structure KubernetesOptions where
  memory : String
  cpu : String
  gpu : UInt32
  /-- Settings passed through to the engine as they stand. -/
  raw : String
deriving DecidableEq

namespace KubernetesOptions

def unset : KubernetesOptions := ⟨"", "", 0, ""⟩

instance : Inhabited KubernetesOptions := ⟨unset⟩

def isEmpty (options : KubernetesOptions) : Bool :=
  options.memory.isEmpty && options.cpu.isEmpty && options.gpu == 0 && options.raw.isEmpty

inductive Amount where
  | memory
  | cpu
deriving DecidableEq

namespace Amount

def name : Amount → String
  | .memory => "memory"
  | .cpu => "cpu"

/-- Well formed amounts, as a message shows them. -/
def examples : Amount → String
  | .memory => "'512Mi', '4Gi'"
  | .cpu => "'500m', '2', '1.5'"

end Amount

/-- The first amount that is given but not well formed, memory before processors. -/
def malformed? (options : KubernetesOptions) : Option (Amount × String) :=
  if !options.memory.isEmpty && !Quantity.isMemory options.memory.toList then
    some (.memory, options.memory)
  else if !options.cpu.isEmpty && !Quantity.isProcessor options.cpu.toList then
    some (.cpu, options.cpu)
  else none

end KubernetesOptions

end CiPipeline
