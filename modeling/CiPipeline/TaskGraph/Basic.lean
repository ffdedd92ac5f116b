import CiPipeline.OrderedMap

/-!
# Task graphs

Tasks by name with the names that each of them depends on. The dependencies that a task declares
are names and may be unknown; wiring turns them into edges between registered tasks, all of them
or none.
-/

namespace CiPipeline

/-- A directed edge between tasks, both given by their place in order of registration. -/
structure TaskGraph.Edge where
  dependency : Nat
  dependent : Nat
deriving DecidableEq

/-- A registered task with the dependencies that it declares. -/
structure TaskGraph.Node where
  name : String
  dependencies : List String
deriving DecidableEq

structure TaskGraph where
  /-- The tasks in order of registration. -/
  nodes : List TaskGraph.Node
  places : OrderedMap Nat
  edges : List TaskGraph.Edge
deriving DecidableEq

namespace TaskGraph

inductive Error where
  /-- A way along dependencies back to the task where it started. -/
  | cycle (path : List String)
  /-- Tasks with the unknown names that they depend on. -/
  | missing (occurrences : List (String × String))
  /-- No order of the tasks follows the edges. -/
  | unsorted (reason : String)
deriving DecidableEq

def Error.message : Error → String
  | .cycle path => "Cycle detected in task graph: " ++ " -> ".intercalate path
  | .missing occurrences =>
      "Missing dependencies: " ++ ", ".intercalate (occurrences.map fun (task, dependency) =>
        "Task '" ++ task ++ "' depends on missing task '" ++ dependency ++ "'")
  | .unsorted reason => "Failed to sort tasks topologically: " ++ reason

def empty : TaskGraph := ⟨[], .empty, []⟩

instance : Inhabited TaskGraph := ⟨empty⟩

def size (g : TaskGraph) : Nat := g.nodes.length

def names (g : TaskGraph) : List String := g.nodes.map Node.name

def index? (g : TaskGraph) (name : String) : Option Nat := g.places.get? name

def contains (g : TaskGraph) (name : String) : Bool := g.places.contains name

def find? (g : TaskGraph) (name : String) : Option Node :=
  (g.index? name).bind fun index => g.nodes[index]?

/-- Registers a task and gives its place. A known name keeps its place and its dependencies. -/
def add (g : TaskGraph) (name : String) (dependencies : List String) : TaskGraph × Nat :=
  match g.index? name with
  | some index => (g, index)
  | none =>
      ({ g with
          nodes := g.nodes ++ [⟨name, dependencies⟩]
          places := g.places.insert name g.size }, g.size)

/-- The graph of a list of tasks that has no edges yet. -/
def ofList (tasks : List (String × List String)) : TaskGraph :=
  tasks.foldl (fun g task => (g.add task.1 task.2).1) empty

/-- Every task with each of its dependencies, in order of declaration. -/
def declared (g : TaskGraph) : List (Nat × String × String) :=
  g.nodes.zipIdx.flatMap fun (node, index) =>
    node.dependencies.map fun dependency => (index, node.name, dependency)

def missing (g : TaskGraph) : List (String × String) :=
  (g.declared.filter fun (_, _, dependency) => !g.contains dependency).map Prod.snd

/-- The edges that the declared dependencies on registered names stand for. -/
def declaredEdges (g : TaskGraph) : List Edge :=
  g.declared.filterMap fun (index, _, dependency) =>
    (g.index? dependency).map fun source => ⟨source, index⟩

def addEdge (edges : List Edge) (edge : Edge) : List Edge :=
  if edges.contains edge then edges else edges ++ [edge]

/-- A computation on a graph that may fail. What it did before it failed stays. -/
abbrev Update := ExceptT Error (StateM TaskGraph)

def addEdges (edges : List Edge) : Update Unit :=
  edges.forM fun edge => modify fun g => { g with edges := addEdge g.edges edge }

/-- Wires all declared dependencies, unless there is an unknown name among them. -/
def wiring : Update Unit := do
  let g ← get
  if g.missing.isEmpty then addEdges g.declaredEdges else throw (.missing g.missing)

/-- The graph after its wiring, if that does not fail. -/
def wire (g : TaskGraph) : Except Error TaskGraph :=
  let (outcome, next) := wiring.run g
  outcome.map fun _ => next

/-- For each task the places of its registered dependencies, in order of declaration. -/
def successors (g : TaskGraph) : List (List Nat) :=
  g.nodes.map fun node => node.dependencies.filterMap g.index?

theorem add_known {g : TaskGraph} {name : String} {index : Nat} (h : g.index? name = some index)
    (dependencies : List String) : g.add name dependencies = (g, index) := by
  simp [add, h]

theorem nodup_addEdge {edges : List Edge} (h : edges.Nodup) (edge : Edge) :
    (addEdge edges edge).Nodup := by
  unfold addEdge
  split
  · exact h
  · rename_i hc
    refine List.nodup_append.mpr ⟨h, by simp, ?_⟩
    intro a ha b hb hab
    rw [List.mem_singleton] at hb
    rw [hab, hb] at ha
    simp [ha] at hc

end TaskGraph

end CiPipeline
