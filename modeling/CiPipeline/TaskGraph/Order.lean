import CiPipeline.TaskGraph.Cycle

/-!
# Orders of execution

An order of all tasks in which dependencies come first, and the levels of tasks that can run side
by side. Both follow the wired edges. They refuse a graph whose declared dependencies form a cycle,
and a graph whose edges no order follows.
-/

namespace CiPipeline.TaskGraph

def dependents (g : TaskGraph) (index : Nat) : List Nat :=
  (g.edges.filter (·.dependency == index)).map (·.dependent)

def wiredDependencies (g : TaskGraph) (index : Nat) : List Nat :=
  (g.edges.filter (·.dependent == index)).map (·.dependency)

/-- The tasks seen so far, and those that are done with, latest first. -/
structure Visit where
  seen : List Nat
  order : List Nat

/-- Puts a task that has not been seen in front of the order, after everything that depends on
it. -/
def visit (g : TaskGraph) : Nat → Visit → Nat → Visit
  | 0, state, _ => state
  | fuel + 1, state, index =>
      if state.seen.contains index then state
      else
        let inner := (g.dependents index).foldl (g.visit fuel)
          { state with seen := index :: state.seen }
        { inner with order := index :: inner.order }

/-- All tasks, each one before those that depend on it if the edges form no cycle. -/
def arrange (g : TaskGraph) : List Nat :=
  ((List.range g.size).foldl (g.visit g.size) ⟨[], []⟩).order

/-- Whether every task comes after whatever it depends on, where some tasks have come before. -/
def follows (g : TaskGraph) : List Nat → List Nat → Bool
  | _, [] => true
  | before, index :: rest =>
      (g.wiredDependencies index).all before.contains && g.follows (index :: before) rest

/-- All tasks in an order that follows the edges. -/
def sort? (g : TaskGraph) : Option (List Nat) :=
  if g.follows [] g.arrange then some g.arrange else none

/-- The level of a task, given those of tasks before it: one more than the highest level among its
dependencies, or zero. -/
def levelAfter (g : TaskGraph) (levels : List (Option Nat)) (index : Nat) : Nat :=
  let known := (g.wiredDependencies index).filterMap fun source => (levels[source]?).join
  (known.map (· + 1)).foldl max 0

/-- The levels of the tasks, given one after the other along an order. -/
def levels (g : TaskGraph) (order : List Nat) : List (Option Nat) :=
  order.foldl (fun levels index => levels.set index (some (g.levelAfter levels index)))
    (List.replicate g.size none)

/-- The places of the tasks of a level, in order of registration. -/
def tasksOfLevel (levels : List (Option Nat)) (level : Nat) : List Nat :=
  levels.zipIdx.filterMap fun (own, index) => if own = some level then some index else none

def levelGroups (g : TaskGraph) (order : List Nat) : List (List Nat) :=
  let levels := g.levels order
  let height := (levels.map fun level => level.elim 0 (· + 1)).foldl max 0
  (List.range height).map (tasksOfLevel levels)

/-- An order of the tasks, unless their declared dependencies or their edges form a cycle. -/
def sorted (g : TaskGraph) : Except Error (List Nat) :=
  match g.findCycle with
  | some path => .error (.cycle path)
  | none =>
      match g.sort? with
      | some order => .ok order
      | none => .error (.unsorted "petgraph toposort failed")

def topologicalOrder (g : TaskGraph) : Except Error (List String) :=
  g.sorted.map fun order => order.map g.nameAt

def parallelGroups (g : TaskGraph) : Except Error (List (List String)) :=
  g.sorted.map fun order => (g.levelGroups order).map fun group => group.map g.nameAt

end CiPipeline.TaskGraph
