import CiPipeline.Proofs.TaskGraph.Order

/-!
# Runs of operations on a graph

Whatever is done with a graph one thing after the other, its tasks are those of the first mention of
each name, numbered in this order, and its edges are among the declared dependencies, each once.
Main statement: this holds after every run, and the next operation answers accordingly: a known name
is given its old place, wiring makes edges of all declared dependencies or reports every
unregistered name, and only a cycle of declared dependencies keeps the tasks from being put in
order.
-/

namespace CiPipeline.TaskGraph

/-! ## Operations -/

inductive Operation where
  | add (name : String) (dependencies : List String)
  | addAll (tasks : List (String × List String))
  | wire
  | findCycle
  | hasCycle
  | topologicalOrder
  | parallelGroups
  | size
  | contains (name : String)
  | find (name : String)
  | names
deriving DecidableEq

inductive Answer where
  | done
  | place (place : Nat)
  | number (number : Nat)
  | truth (truth : Bool)
  | cycle (path : Option (List String))
  | node (node : Option Node)
  | names (names : List String)
  | groups (groups : List (List String))
deriving DecidableEq

/-- What an operation answers, and the graph afterwards, whether it failed or not. -/
def perform (g : TaskGraph) : Operation → Except Error Answer × TaskGraph
  | .add name dependencies =>
      let (next, place) := g.add name dependencies
      (.ok (.place place), next)
  | .addAll tasks =>
      let next := tasks.foldl (fun g task => (g.add task.1 task.2).1) g
      (.ok (.number next.size), next)
  | .wire =>
      let (outcome, next) := wiring.run g
      (outcome.map fun _ => .done, next)
  | .findCycle => (.ok (.cycle g.findCycle), g)
  | .hasCycle => (.ok (.truth g.hasCycle), g)
  | .topologicalOrder => (g.topologicalOrder.map .names, g)
  | .parallelGroups => (g.parallelGroups.map .groups, g)
  | .size => (.ok (.number g.size), g)
  | .contains name => (.ok (.truth (g.contains name)), g)
  | .find name => (.ok (.node (g.find? name)), g)
  | .names => (.ok (.names g.names), g)

/-- The tasks that an operation mentions. -/
def Operation.tasks : Operation → List (String × List String)
  | .add name dependencies => [(name, dependencies)]
  | .addAll tasks => tasks
  | _ => []

/-- The graph after operations one after the other, failed ones or not. -/
def run (operations : List Operation) : TaskGraph :=
  operations.foldl (fun g operation => (g.perform operation).2) empty

variable {g : TaskGraph} {tasks : List (String × List String)}

theorem perform_wire (g : TaskGraph) :
    g.perform .wire = match g.wire with
      | .ok next => (.ok .done, next)
      | .error error => (.error error, g) := by
  rw [perform, run_wiring_eq]
  cases g.wire <;> rfl

theorem Reachable.perform (h : g.Reachable) (operation : Operation) :
    (g.perform operation).2.Reachable := by
  cases operation with
  | add name dependencies => exact h.add name dependencies
  | addAll tasks => exact reachable_foldl_add tasks h
  | wire =>
      rw [perform_wire]
      cases hwire : g.wire with
      | ok next => exact h.wire hwire
      | error error => exact h
  | _ => exact h

theorem run_concat (operations : List Operation) (operation : Operation) :
    run (operations ++ [operation]) = ((run operations).perform operation).2 := by
  rw [run, List.foldl_append]
  rfl

theorem reachable_run (operations : List Operation) : (run operations).Reachable := by
  induction operations using List.reverseRecOn with
  | nil => exact .empty
  | append_singleton operations operation ih =>
      rw [run_concat]
      exact ih.perform operation

/-! ## Registered tasks -/

/-- The tasks of the graph are those of a list of mentions: each name once and in the place of its
first mention, with the dependencies that it was mentioned with then. The map of places finds
exactly these names, each at its place. -/
structure Registers (g : TaskGraph) (tasks : List (String × List String)) : Prop where
  names_eq : g.names = (tasks.map Prod.fst).eraseDups
  distinct : g.names.Nodup
  places : ∀ name place, g.index? name = some place ↔ g.names[place]? = some name
  first : ∀ node ∈ g.nodes,
    tasks.find? (fun task => task.1 == node.name) = some (node.name, node.dependencies)

theorem Registers.mem_names_iff (h : g.Registers tasks) {name : String} :
    name ∈ g.names ↔ name ∈ tasks.map Prod.fst := by
  rw [h.names_eq, List.mem_eraseDups]

theorem Registers.add (h : g.Registers tasks) (hg : g.places.Numbers g.names) (name : String)
    (dependencies : List String) :
    (g.add name dependencies).1.Registers (tasks ++ [(name, dependencies)]) := by
  have hnext := numbers_add hg name dependencies
  have hkept : ∀ node ∈ g.nodes, (tasks ++ [(name, dependencies)]).find?
      (fun task => task.1 == node.name) = some (node.name, node.dependencies) := by
    intro node hnode
    rw [List.find?_append, h.first node hnode, Option.some_or]
  refine ⟨?_, hnext.nodup, fun _ _ => hnext.get?_eq_some_iff, ?_⟩
  · rw [List.map_append, List.map_singleton, eraseDups_concat, ← h.names_eq]
    cases hindex : g.index? name with
    | some place =>
        have hknown : name ∈ g.names := List.mem_of_getElem? ((h.places name place).mp hindex)
        rw [if_pos (h.mem_names_iff.mp hknown), add_known hindex]
    | none =>
        have hnew : name ∉ g.names := hg.get?_eq_none_iff.mp hindex
        rw [if_neg (fun hmem => hnew (h.mem_names_iff.mpr hmem))]
        simp [TaskGraph.add, hindex, names]
  · cases hindex : g.index? name with
    | some place =>
        rw [add_known hindex]
        exact hkept
    | none =>
        have hnew : name ∉ g.names := hg.get?_eq_none_iff.mp hindex
        intro node hnode
        have hcases : node ∈ g.nodes ∨ node = ⟨name, dependencies⟩ := by
          simpa [TaskGraph.add, hindex] using hnode
        by_cases hold : node ∈ g.nodes
        · exact hkept node hold
        · -- No earlier mention has the name of a new task.
          obtain rfl := hcases.resolve_left hold
          have hnone : tasks.find? (fun task => task.1 == name) = none := by
            rw [List.find?_eq_none]
            intro task htask hsame
            exact hnew (h.mem_names_iff.mpr (List.mem_map.mpr ⟨task, htask, by simpa using hsame⟩))
          rw [List.find?_append, hnone, Option.none_or]
          simp

theorem Registers.addAll (more : List (String × List String)) (h : g.Registers tasks)
    (hg : g.Reachable) :
    (more.foldl (fun g task => (g.add task.1 task.2).1) g).Registers (tasks ++ more) := by
  induction more generalizing g tasks with
  | nil => simpa using h
  | cons task rest ih =>
      have hrest := ih (h.add hg.numbers task.1 task.2) (hg.add task.1 task.2)
      rwa [List.append_assoc] at hrest

theorem Registers.perform (h : g.Registers tasks) (hg : g.Reachable) (operation : Operation) :
    (g.perform operation).2.Registers (tasks ++ operation.tasks) := by
  cases operation with
  | add name dependencies => exact h.add hg.numbers name dependencies
  | addAll more => exact h.addAll more hg
  | wire =>
      have hnone : tasks ++ Operation.wire.tasks = tasks := List.append_nil tasks
      rw [hnone, perform_wire]
      cases hwire : g.wire with
      | ok next =>
          obtain ⟨-, rfl⟩ := wire_eq_ok hwire
          exact ⟨h.names_eq, h.distinct, h.places, h.first⟩
      | error error => exact h
  | _ => simpa [Operation.tasks, TaskGraph.perform] using h

theorem registers_empty : empty.Registers [] where
  names_eq := rfl
  distinct := List.nodup_nil
  places _ _ := Reachable.empty.numbers.get?_eq_some_iff
  first := by simp [empty]

theorem registers_run (operations : List Operation) :
    (run operations).Registers (operations.flatMap Operation.tasks) := by
  induction operations using List.reverseRecOn with
  | nil => exact registers_empty
  | append_singleton operations operation ih =>
      rw [run_concat, List.flatMap_append, List.flatMap_singleton]
      exact ih.perform (reachable_run operations) operation

/-! ## Edges -/

/-- The edge stands for a dependency that its dependent task declares. -/
def Declares (g : TaskGraph) (edge : Edge) : Prop :=
  ∃ node dependency, g.nodes[edge.dependent]? = some node ∧ dependency ∈ node.dependencies ∧
    g.names[edge.dependency]? = some dependency

theorem declares_of_mem_edges (h : g.Reachable) {edge : Edge} (hedge : edge ∈ g.edges) :
    g.Declares edge :=
  (adjacent_iff h.numbers).mp (h.adjacent_of_wired hedge)

/-- After a wiring the edges are the declared dependencies. -/
theorem mem_edges_wire_iff {next : TaskGraph} (h : g.Reachable) (hwire : g.wire = .ok next)
    {edge : Edge} : edge ∈ next.edges ↔ next.Declares edge :=
  (h.wired_wire_iff hwire).trans (adjacent_iff (h.wire hwire).numbers)

theorem Reachable.nodup_edges (h : g.Reachable) : g.edges.Nodup := by
  induction h with
  | empty => exact List.nodup_nil
  | @add g _ name dependencies ih =>
      cases hindex : g.index? name with
      | some place => rwa [add_known hindex]
      | none => simpa [TaskGraph.add, hindex] using ih
  | @wire g next _ hwire ih =>
      obtain ⟨-, rfl⟩ := wire_eq_ok hwire
      have hfold : ∀ edges : List Edge, edges.Nodup →
          (g.declaredEdges.foldl addEdge edges).Nodup := by
        induction g.declaredEdges with
        | nil => exact fun _ hedges => hedges
        | cons edge rest hrest => exact fun edges hedges => hrest _ (nodup_addEdge hedges edge)
      exact hfold g.edges ih

/-- The mentions of unregistered names among the declared dependencies, with the tasks that declare
them, in order of declaration. -/
def unregistered (g : TaskGraph) : List (String × String) :=
  g.nodes.flatMap fun node =>
    (node.dependencies.filter fun dependency => dependency ∉ g.names).map fun dependency =>
      (node.name, dependency)

theorem missing_eq_unregistered (hg : g.places.Numbers g.names) : g.missing = g.unregistered := by
  have hunknown : ∀ dependency : String,
      (!g.contains dependency) = decide (dependency ∉ g.names) := by
    intro dependency
    have hknown : g.contains dependency = true ↔ dependency ∈ g.names := hg.contains_iff
    by_cases hmem : dependency ∈ g.names
    · simp [hknown.mpr hmem, hmem]
    · simp [Bool.eq_false_iff.mpr (mt hknown.mp hmem), hmem]
  unfold missing declared unregistered
  rw [List.filter_flatMap, List.map_flatMap]
  conv_rhs => rw [← List.zipIdx_map_fst 0 g.nodes, List.flatMap_map]
  congr 1
  funext entry
  rw [List.filter_map, List.map_map]
  simp only [Function.comp_def, hunknown]

theorem wire_eq_error (hg : g.places.Numbers g.names) {error : Error}
    (h : g.wire = .error error) : error = .missing g.unregistered := by
  rw [wire_eq] at h
  split at h
  · cases h
  · rw [← missing_eq_unregistered hg]
    exact (Except.error.inj h).symm

theorem unregistered_of_wire (hg : g.places.Numbers g.names) {next : TaskGraph}
    (h : g.wire = .ok next) : g.unregistered = [] := by
  rw [← missing_eq_unregistered hg]
  exact (wire_eq_ok h).1

/-! ## Answers -/

/-- What a graph answers: the old place to a known name, which stays as it is, and the next one to a
new name; edges for all declared dependencies to a wiring, or else every mention of an unregistered
name; and only a cycle that it finds keeps it from giving an order and groups. -/
structure Responds (g : TaskGraph) : Prop where
  known : ∀ name dependencies place, g.index? name = some place →
    g.perform (.add name dependencies) = (.ok (.place place), g)
  new : ∀ name dependencies, g.index? name = none →
    (g.perform (.add name dependencies)).1 = .ok (.place g.size)
  wired : ∀ answer next, g.perform .wire = (.ok answer, next) →
    g.unregistered = [] ∧ next.nodes = g.nodes ∧ next.places = g.places ∧
      ∀ edge, edge ∈ next.edges ↔ next.Declares edge
  refused : ∀ error next, g.perform .wire = (.error error, next) →
    next = g ∧ g.unregistered ≠ [] ∧ error = .missing g.unregistered
  unordered : ∀ error, g.topologicalOrder = .error error ↔
    ∃ path, g.findCycle = some path ∧ error = .cycle path
  ungrouped : ∀ error, g.parallelGroups = .error error ↔
    ∃ path, g.findCycle = some path ∧ error = .cycle path

theorem map_eq_error_iff {result : Except ε α} {change : α → β} {error : ε} :
    result.map change = .error error ↔ result = .error error := by
  cases result with
  | error other => simp [Except.map]
  | ok value => simp [Except.map]

theorem Reachable.responds (h : g.Reachable) : g.Responds := by
  constructor
  case known =>
    intro name dependencies place hindex
    rw [TaskGraph.perform, add_known hindex]
  case new =>
    intro name dependencies hindex
    simp [TaskGraph.perform, TaskGraph.add, hindex]
  case wired =>
    intro answer next hperform
    rw [perform_wire] at hperform
    cases hwire : g.wire with
    | error error => simp [hwire] at hperform
    | ok wired =>
        have hnext : wired = next := by simpa [hwire] using congrArg Prod.snd hperform
        subst hnext
        refine ⟨unregistered_of_wire h.numbers hwire, ?_, ?_, fun _ => mem_edges_wire_iff h hwire⟩
        · rw [(wire_eq_ok hwire).2]
        · rw [(wire_eq_ok hwire).2]
  case refused =>
    intro error next hperform
    rw [perform_wire] at hperform
    cases hwire : g.wire with
    | ok wired => simp [hwire] at hperform
    | error found =>
        simp only [hwire, Prod.mk.injEq, Except.error.injEq] at hperform
        obtain ⟨rfl, rfl⟩ := hperform
        refine ⟨rfl, fun hnone => ?_, wire_eq_error h.numbers hwire⟩
        obtain ⟨wired, hok⟩ := exists_wire ((missing_eq_unregistered h.numbers).trans hnone)
        rw [hok] at hwire
        cases hwire
  case unordered =>
    intro error
    rw [topologicalOrder, map_eq_error_iff, sorted_eq_error_iff h]
  case ungrouped =>
    intro error
    rw [parallelGroups, map_eq_error_iff, sorted_eq_error_iff h]

/-- After any run the tasks of the graph are the first mentions of their names, in order; its edges
stand for declared dependencies, each once; and it answers the next operation accordingly. -/
theorem run_exact (operations : List Operation) :
    (run operations).Registers (operations.flatMap Operation.tasks) ∧
      (∀ edge ∈ (run operations).edges, (run operations).Declares edge) ∧
      (run operations).edges.Nodup ∧ (run operations).Responds := by
  have h := reachable_run operations
  exact ⟨registers_run operations, fun edge => declares_of_mem_edges h, h.nodup_edges, h.responds⟩

end CiPipeline.TaskGraph
