import CiPipeline.Proofs.TaskGraph.Dependency
import CiPipeline.TaskGraph.Order
import Mathlib.Logic.Relation

/-!
# Wired edges

The edges of a graph stand for dependencies that were declared, and wiring leaves none of these
out. So the edges form no cycle where the declared dependencies form none.
-/

namespace CiPipeline.TaskGraph

/-- There is an edge from one place to another one, which waits for it. -/
def Wired (g : TaskGraph) (dependency dependent : Nat) : Prop := ⟨dependency, dependent⟩ ∈ g.edges

variable {g : TaskGraph}

theorem mem_dependents {dependency dependent : Nat} :
    dependent ∈ g.dependents dependency ↔ g.Wired dependency dependent := by
  simp only [dependents, List.mem_map, List.mem_filter, beq_iff_eq, Wired]
  constructor
  · rintro ⟨edge, ⟨hedge, rfl⟩, rfl⟩
    exact hedge
  · intro h
    exact ⟨_, ⟨h, rfl⟩, rfl⟩

theorem mem_wiredDependencies {dependency dependent : Nat} :
    dependency ∈ g.wiredDependencies dependent ↔ g.Wired dependency dependent := by
  simp only [wiredDependencies, List.mem_map, List.mem_filter, beq_iff_eq, Wired]
  constructor
  · rintro ⟨edge, ⟨hedge, rfl⟩, rfl⟩
    exact hedge
  · intro h
    exact ⟨_, ⟨h, rfl⟩, rfl⟩

/-! ## Edges and declarations -/

theorem mem_declaredEdges {dependency dependent : Nat} :
    (⟨dependency, dependent⟩ : Edge) ∈ g.declaredEdges ↔
      Adjacent g.successors dependent dependency := by
  rw [Adjacent, successors, List.getElem?_map]
  simp only [declaredEdges, declared, List.mem_filterMap, List.mem_flatMap, List.mem_map,
    Option.map_eq_some_iff, Edge.mk.injEq]
  constructor
  · rintro ⟨_, ⟨⟨node, _⟩, hnode, name, hname, rfl⟩, _, hsource, rfl, rfl⟩
    rw [List.mem_zipIdx_iff_getElem?.mp hnode]
    exact List.mem_filterMap.mpr ⟨name, hname, hsource⟩
  · intro h
    cases hnode : g.nodes[dependent]? with
    | none => simp [hnode] at h
    | some node =>
        rw [hnode] at h
        obtain ⟨name, hname, hsource⟩ := List.mem_filterMap.mp h
        exact ⟨_, ⟨(node, dependent), List.mem_zipIdx_iff_getElem?.mpr hnode, name, hname, rfl⟩,
          dependency, hsource, rfl, rfl⟩

theorem mem_addEdge {edges : List Edge} {edge other : Edge} :
    other ∈ addEdge edges edge ↔ other ∈ edges ∨ other = edge := by
  rw [addEdge]
  split
  · rename_i hknown
    have hmem : edge ∈ edges := by simpa using hknown
    constructor
    · exact .inl
    · rintro (h | rfl)
      · exact h
      · exact hmem
  · simp

theorem mem_foldl_addEdge {edges more : List Edge} {edge : Edge} :
    edge ∈ more.foldl addEdge edges ↔ edge ∈ edges ∨ edge ∈ more := by
  induction more generalizing edges with
  | nil => simp
  | cons next rest ih => rw [List.foldl_cons, ih, mem_addEdge, List.mem_cons, or_assoc]

/-- Wiring makes an edge of every dependency between registered tasks. -/
theorem wired_wire {next : TaskGraph} (h : g.wire = .ok next) {dependency dependent : Nat} :
    next.Wired dependency dependent ↔
      g.Wired dependency dependent ∨ Adjacent g.successors dependent dependency := by
  obtain ⟨-, rfl⟩ := wire_eq_ok h
  rw [Wired, mem_foldl_addEdge, mem_declaredEdges, Wired]

theorem missing_eq_nil_iff (hg : g.places.Numbers g.names) :
    g.missing = [] ↔ ∀ node ∈ g.nodes, ∀ dependency ∈ node.dependencies, dependency ∈ g.names := by
  have hknown (dependency : String) : g.contains dependency = true ↔ dependency ∈ g.names :=
    hg.contains_iff
  simp only [missing, declared, List.map_eq_nil_iff, List.filter_eq_nil_iff, List.mem_flatMap,
    List.mem_map, Bool.not_eq_true', Bool.not_eq_false, forall_exists_index, and_imp]
  constructor
  · intro h node hnode dependency hdependency
    obtain ⟨index, hindex⟩ := List.getElem?_of_mem hnode
    exact (hknown dependency).mp (h _ (node, index) (List.mem_zipIdx_iff_getElem?.mpr hindex)
      dependency hdependency rfl)
  · rintro h _ ⟨node, index⟩ hnode dependency hdependency rfl
    have hmem : node ∈ g.nodes := List.mem_of_getElem? (List.mem_zipIdx_iff_getElem?.mp hnode)
    exact (hknown dependency).mpr (h node hmem dependency hdependency)

theorem exists_wire (h : g.missing = []) : ∃ next, g.wire = .ok next :=
  ⟨_, (wire_eq g).trans (if_pos (List.isEmpty_iff.mpr h))⟩

/-- Wiring leaves the declared dependencies as they are. -/
theorem dependsOn_wire {next : TaskGraph} (h : g.wire = .ok next) :
    next.DependsOn = g.DependsOn := by
  obtain ⟨-, rfl⟩ := wire_eq_ok h
  rfl

theorem names_wire {next : TaskGraph} (h : g.wire = .ok next) : next.names = g.names := by
  obtain ⟨-, rfl⟩ := wire_eq_ok h
  rfl

theorem successors_wire {next : TaskGraph} (h : g.wire = .ok next) :
    next.successors = g.successors := by
  obtain ⟨-, rfl⟩ := wire_eq_ok h
  rfl

/-- What a place depends on, it still depends on when another task has been registered. -/
theorem Adjacent.add (hg : g.places.Numbers g.names) {node next : Nat}
    (h : Adjacent g.successors node next) (name : String) (dependencies : List String) :
    Adjacent (g.add name dependencies).1.successors node next := by
  cases hknown : g.index? name with
  | some index =>
      rw [add_known hknown]
      exact h
  | none =>
      have hnodes : g.nodes <+: (g.add name dependencies).1.nodes := by
        simp [TaskGraph.add, hknown]
      obtain ⟨entry, dependency, hentry, hdependency, hname⟩ := (adjacent_iff hg).mp h
      exact (adjacent_iff (numbers_add hg name dependencies)).mpr
        ⟨entry, dependency, getElem?_of_isPrefix hnodes hentry, hdependency,
          getElem?_of_isPrefix (hnodes.map Node.name) hname⟩

/-- Every edge of a reachable graph stands for a dependency that was declared. -/
theorem Reachable.adjacent_of_wired (h : g.Reachable) {dependency dependent : Nat}
    (hwired : g.Wired dependency dependent) : Adjacent g.successors dependent dependency := by
  induction h with
  | empty => cases hwired
  | @add g h name dependencies ih =>
      have hedges : (g.add name dependencies).1.edges = g.edges := by
        rw [TaskGraph.add]
        split
        · rfl
        · rfl
      rw [Wired, hedges] at hwired
      exact (ih hwired).add h.numbers name dependencies
  | wire h hwire ih =>
      rw [successors_wire hwire]
      exact ((wired_wire hwire).mp hwired).elim ih id

/-- After a wiring the edges are the declared dependencies: those that there were before are among
them. -/
theorem Reachable.wired_wire_iff {next : TaskGraph} (h : g.Reachable) (hwire : g.wire = .ok next)
    {dependency dependent : Nat} :
    next.Wired dependency dependent ↔ Adjacent next.successors dependent dependency := by
  rw [wired_wire hwire, successors_wire hwire, or_iff_right_of_imp h.adjacent_of_wired]

theorem Reachable.acyclic_wired (h : g.Reachable) (hacyclic : Acyclic g.DependsOn) :
    Acyclic g.Wired := by
  intro place hcycle
  have hback : Relation.TransGen (Function.swap g.Wired) place place := hcycle.swap
  have hdeclared : Relation.TransGen (Adjacent g.successors) place place :=
    hback.lift id fun _ _ hwired => h.adjacent_of_wired hwired
  exact (acyclic_dependsOn_iff h.numbers).mp hacyclic place hdeclared

theorem Reachable.wired_lt (h : g.Reachable) {dependency dependent : Nat}
    (hwired : g.Wired dependency dependent) : dependency < g.size ∧ dependent < g.size := by
  have hadjacent := h.adjacent_of_wired hwired
  refine ⟨hadjacent.next_lt_length h.numbers, ?_⟩
  rw [← length_successors]
  exact hadjacent.lt_length

end CiPipeline.TaskGraph
