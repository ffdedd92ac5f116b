import CiPipeline.Proofs.TaskGraph.Agenda
import CiPipeline.Proofs.TaskGraph.Layers
import CiPipeline.Proofs.TaskGraph.Run

/-!
# Sequences of execution

The order of execution after any run of operations. Main statement: unless the search finds a cycle,
every task stands in the order and once, behind whatever it is wired to, and behind whatever it
declares once all tasks are wired; and visits with a stack come to the same order.
-/

namespace CiPipeline.TaskGraph

variable {g next : TaskGraph}

/-! ## What stands before what -/

theorem Arranged.nodup {order : List Nat} (h : g.Arranged order) : order.Nodup := by
  induction h with
  | nil => exact List.nodup_nil
  | cons _ hnew _ ih => exact List.nodup_cons.mpr ⟨hnew, ih⟩

theorem Arranged.pair_sublist {order : List Nat} (h : g.Arranged order) {index dependent : Nat}
    (hindex : index ∈ order) (hwired : g.Wired index dependent) :
    [index, dependent].Sublist order := by
  induction h with
  | nil => cases hindex
  | cons _ _ hdependents ih =>
      rcases List.mem_cons.mp hindex with rfl | hrest
      · exact (List.singleton_sublist.mpr (hdependents _ hwired)).cons_cons _
      · exact (ih hrest).cons _

theorem IsOrder.perm_range {order : List Nat} (h : g.IsOrder order) :
    order.Perm (List.range g.size) := by
  rw [List.perm_ext_iff_of_nodup h.arranged.nodup List.nodup_range]
  intro index
  rw [h.complete, List.mem_range]

theorem IsOrder.perm_names {order : List Nat} (h : g.IsOrder order) :
    (order.map g.nameAt).Perm g.names := by
  rw [← map_nameAt_range]
  exact h.perm_range.map g.nameAt

theorem IsOrder.pair_sublist {order : List Nat} (h : g.IsOrder order) (hg : g.Reachable)
    {task dependency : String} (hwaits : g.WaitsFor task dependency) :
    [dependency, task].Sublist (order.map g.nameAt) := by
  obtain ⟨source, index, hsource, hindex, hwired⟩ := hwaits
  have hplaces := h.arranged.pair_sublist ((h.complete source).mpr (hg.wired_lt hwired).1) hwired
  have hnames := hplaces.map g.nameAt
  rwa [List.map_cons, List.map_singleton, nameAt_eq hsource, nameAt_eq hindex] at hnames

theorem eq_arrange_of_sorted {order : List Nat} (h : g.sorted = .ok order) : order = g.arrange := by
  unfold sorted sort? at h
  split at h
  · cases h
  · split at h
    · rename_i hsort
      cases h
      exact (Option.some.inj (Option.ite_none_right_eq_some.mp hsort).2).symm
    · cases h

/-! ## What operations leave -/

/-- Tasks are added behind those that there are, and no edge goes. -/
structure Grows (g next : TaskGraph) : Prop where
  nodes : g.nodes <+: next.nodes
  edges : g.edges ⊆ next.edges

theorem Grows.refl (g : TaskGraph) : g.Grows g := ⟨List.prefix_refl _, List.Subset.refl _⟩

theorem Grows.trans {last : TaskGraph} (h : g.Grows next) (h' : next.Grows last) : g.Grows last :=
  ⟨h.nodes.trans h'.nodes, List.Subset.trans h.edges h'.edges⟩

theorem grows_add (g : TaskGraph) (name : String) (dependencies : List String) :
    g.Grows (g.add name dependencies).1 := by
  cases hindex : g.index? name with
  | some index =>
      rw [add_known hindex]
      exact .refl g
  | none =>
      simp only [TaskGraph.add, hindex]
      exact ⟨List.prefix_append _ _, List.Subset.refl _⟩

theorem grows_addAll (g : TaskGraph) (tasks : List (String × List String)) :
    g.Grows (tasks.foldl (fun g task => (g.add task.1 task.2).1) g) := by
  induction tasks generalizing g with
  | nil => exact .refl g
  | cons task rest ih => exact (grows_add g task.1 task.2).trans (ih _)

theorem grows_wire (h : g.wire = .ok next) : g.Grows next := by
  obtain ⟨-, rfl⟩ := wire_eq_ok h
  exact ⟨List.prefix_refl _, fun edge hedge => mem_foldl_addEdge.mpr (.inl hedge)⟩

theorem grows_perform (g : TaskGraph) (operation : Operation) :
    g.Grows (g.perform operation).2 := by
  cases operation with
  | add name dependencies => exact grows_add g name dependencies
  | addAll tasks => exact grows_addAll g tasks
  | wire =>
      rw [perform_wire]
      cases hwire : g.wire with
      | ok next => exact grows_wire hwire
      | error error => exact .refl g
  | _ => exact .refl g

theorem grows_run (before after : List Operation) : (run before).Grows (run (before ++ after)) := by
  induction after using List.reverseRecOn with
  | nil =>
      rw [List.append_nil]
      exact .refl _
  | append_singleton after operation ih =>
      rw [← List.append_assoc, run_concat]
      exact ih.trans (grows_perform _ operation)

/-- What is fully wired stays so until a task is added. -/
theorem FullyWired.grows (h : g.FullyWired) (hgrows : g.Grows next) (hsize : next.size = g.size) :
    next.FullyWired := by
  have hnodes : g.nodes = next.nodes := hgrows.nodes.eq_of_length hsize.symm
  intro node hnode dependency hdependency
  obtain ⟨source, index, hsource, hindex, hwired⟩ := h node (hnodes ▸ hnode) dependency hdependency
  rw [names, hnodes] at hsource hindex
  exact ⟨source, index, hsource, hindex, hgrows.edges hwired⟩

/-- A wiring has gone well, and no task has been added since. -/
def WiredSince (operations : List Operation) : Prop :=
  ∃ before after wired, operations = before ++ .wire :: after ∧ (run before).wire = .ok wired ∧
    (run operations).size = wired.size

theorem fullyWired_of_wiredSince {operations : List Operation} (h : WiredSince operations) :
    (run operations).FullyWired := by
  obtain ⟨before, after, wired, rfl, hwire, hsize⟩ := h
  have hwired : run (before ++ [.wire]) = wired := by
    rw [run_concat, perform_wire, hwire]
  have hgrows := grows_run (before ++ [.wire]) after
  rw [hwired, List.append_assoc, List.singleton_append] at hgrows
  exact (fullyWired_wire (reachable_run before) hwire).grows hgrows hsize

/-! ## The order -/

/-- Unless there is a cycle, the order has every task and once, and whatever a task is wired to
stands before it, whether or not all tasks are wired yet. Once they are, whatever a task declares
stands before it. Visits with a stack are done with the tasks in the same order. -/
theorem topologicalOrder_exact (operations : List Operation)
    (hnone : (run operations).findCycle = none) :
    ∃ order, (run operations).topologicalOrder = .ok order ∧
      order.Perm (run operations).names ∧ order.Nodup ∧
      (∀ task dependency, (run operations).WaitsFor task dependency →
        [dependency, task].Sublist order) ∧
      (WiredSince operations → ∀ node ∈ (run operations).nodes,
        ∀ dependency ∈ node.dependencies, [dependency, node.name].Sublist order) ∧
      ∃ discovered places,
        Agenda.Leads (run operations) (.start (run operations).size)
          ⟨[], [], discovered, places⟩ ∧
        order = places.map (run operations).nameAt := by
  have hg := reachable_run operations
  have hacyclic := (findCycle_eq_none_iff hg.numbers).mp hnone
  obtain ⟨places, hsorted, horder⟩ := sorted_of_acyclic hg hacyclic
  obtain ⟨discovered, hleads⟩ :=
    leads_arrange (hg.acyclic_wired hacyclic) fun _ _ hwired => (hg.wired_lt hwired).2
  rw [← eq_arrange_of_sorted hsorted] at hleads
  refine ⟨places.map (run operations).nameAt, ?_, horder.perm_names, ?_, ?_, ?_, ?_⟩
  · rw [topologicalOrder, hsorted, Except.map]
  · exact horder.perm_names.nodup_iff.mpr hg.numbers.nodup
  · exact fun task dependency hwaits => horder.pair_sublist hg hwaits
  · intro hwired node hnode dependency hdependency
    exact horder.pair_sublist hg
      (fullyWired_of_wiredSince hwired node hnode dependency hdependency)
  · exact ⟨discovered, places, hleads, rfl⟩

/-- The first wiring misses a task; the second one finds it, and then everything is in order. -/
theorem topologicalOrder_of_rewired :
    let operations : List Operation :=
      [.add "app" ["lib", "core"], .add "lib" ["core"], .wire, .add "core" [], .wire, .add "lib" []]
    (run operations).findCycle = none ∧ WiredSince operations ∧
      ∃ order, (run operations).topologicalOrder = .ok order ∧
        ["core", "lib"].Sublist order ∧ ["lib", "app"].Sublist order := by
  intro operations
  have hnone : (run operations).findCycle = none := by decide +kernel
  have hwired : WiredSince operations :=
    ⟨operations.take 4, [.add "lib" []], run operations, rfl, by decide +kernel, rfl⟩
  obtain ⟨order, horder, -, -, -, hdeclared, -⟩ := topologicalOrder_exact operations hnone
  have happ : ⟨"app", ["lib", "core"]⟩ ∈ (run operations).nodes := by decide +kernel
  have hlib : ⟨"lib", ["core"]⟩ ∈ (run operations).nodes := by decide +kernel
  exact ⟨hnone, hwired, order, horder, hdeclared hwired _ hlib "core" (by simp),
    hdeclared hwired _ happ "lib" (by simp)⟩

end CiPipeline.TaskGraph
