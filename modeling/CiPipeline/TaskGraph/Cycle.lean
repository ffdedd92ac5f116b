import CiPipeline.TaskGraph.Basic

/-!
# Search for a dependency cycle

A depth-first search along the declared dependencies, with its stack as a value, so that a long
chain of tasks needs no deep recursion. It follows names, not wired edges, and passes over names
that are not registered. The first dependency found on the way from the current root closes the
cycle that is reported.
-/

namespace CiPipeline.TaskGraph

/-- How far the search has come with a task: not yet seen, on the current way, or done with. -/
inductive Color where
  | white
  | gray
  | black
deriving DecidableEq

structure Search where
  /-- The tasks from which the search has still to start. -/
  roots : List Nat
  colors : List Color
  /-- The current way, newest task first. -/
  path : List Nat
  /-- The tasks on the current way with the number of dependencies already looked at, newest
  task first. -/
  stack : List (Nat × Nat)
deriving DecidableEq

inductive Search.Progress where
  | running (search : Search)
  | closed (cycle : List Nat)
  | finished
deriving DecidableEq

namespace Search

def start (size : Nat) : Search :=
  { roots := List.range size, colors := List.replicate size .white, path := [], stack := [] }

/-- Goes on to a task that has not been seen. -/
def enter (search : Search) (node : Nat) : Search :=
  { search with
    colors := search.colors.set node .gray
    path := node :: search.path
    stack := (node, 0) :: search.stack }

/-- Goes back from the newest task, all dependencies of which have been looked at. -/
def leave (search : Search) (node : Nat) : Search :=
  { search with
    colors := search.colors.set node .black
    path := search.path.tail
    stack := search.stack.tail }

/-- The cycle that a dependency on a task of the current way closes: the way from that task on,
and the task again. The whole way would be taken for a task that is not on it. -/
def cycleFrom (path : List Nat) (node : Nat) : List Nat :=
  let way := path.reverse
  way.drop ((way.idxOf? node).getD 0) ++ [node]

/-- One step: look at the next dependency of the newest task, go back from it, or start from the
next root. -/
def step (successors : List (List Nat)) (search : Search) : Progress :=
  match search.stack with
  | [] =>
      match search.roots with
      | [] => .finished
      | root :: roots =>
          let search := { search with roots := roots }
          if search.colors[root]? = some .white then .running (search.enter root)
          else .running search
  | (node, position) :: below =>
      match (successors[node]?.getD [])[position]? with
      | none => .running (search.leave node)
      | some next =>
          let color : Option Color := search.colors[next]?
          let search := { search with stack := (node, position + 1) :: below }
          match color with
          | some .white => .running (search.enter next)
          | some .gray => .closed (cycleFrom search.path next)
          | _ => .running search

/-- Runs a search for at most `fuel` steps. -/
def run (successors : List (List Nat)) : Nat → Search → Progress
  | 0, search => .running search
  | fuel + 1, search =>
      match search.step successors with
      | .running search => run successors fuel search
      | stopped => stopped

end Search

/-- Enough steps for a whole search: each task is a root, is entered and is left once, and each
dependency is looked at once. -/
def searchBound (g : TaskGraph) : Nat := 3 * g.size + g.successors.flatten.length + 1

def nameAt (g : TaskGraph) (index : Nat) : String := (g.nodes[index]?.map Node.name).getD ""

def search (g : TaskGraph) : Search.Progress :=
  Search.run g.successors g.searchBound (Search.start g.size)

/-- A cycle of declared dependencies among registered tasks, if there is one: from a task back to
the same task. -/
def findCycle (g : TaskGraph) : Option (List String) :=
  match g.search with
  | .closed cycle => some (cycle.map g.nameAt)
  | _ => none

def hasCycle (g : TaskGraph) : Bool := g.findCycle.isSome

end CiPipeline.TaskGraph
