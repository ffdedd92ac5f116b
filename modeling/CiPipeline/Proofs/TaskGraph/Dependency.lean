import CiPipeline.Proofs.OrderedMap
import CiPipeline.TaskGraph.Cycle
import Mathlib.Data.List.Chain
import Mathlib.Data.List.Nodup

/-!
# Dependencies between registered tasks

The graphs that registering and wiring lead to, and the relation that their declared dependencies
stand for, between names and between places. Main statement: it has a cycle between names exactly
if it has one between places.
-/

namespace CiPipeline

/-! ## Cycles of a relation -/

/-- No way along a relation leads back to where it started. -/
def Acyclic (r : α → α → Prop) : Prop := ∀ a, ¬ Relation.TransGen r a a

/-- A way along a relation that ends where it started and comes to nothing else twice. -/
structure IsCycle (r : α → α → Prop) (path : List α) : Prop where
  two_le_length : 2 ≤ path.length
  closed : path.head? = path.getLast?
  distinct : path.dropLast.Nodup
  chain : path.IsChain r

theorem IsCycle.not_acyclic {r : α → α → Prop} {path : List α} (h : IsCycle r path) :
    ¬ Acyclic r := by
  intro hr
  match path, h with
  | a :: b :: rest, h =>
      have hlast : (b :: rest).getLast (by simp) = a := by
        have hclosed := h.closed
        rw [List.getLast?_eq_some_getLast (by simp), List.head?_cons] at hclosed
        exact (Option.some.inj hclosed).symm
      have hstep : r a b := h.chain.rel
      have hback : Relation.ReflTransGen r b a :=
        List.relationReflTransGen_of_exists_isChain_cons rest h.chain.tail hlast
      exact hr a (Relation.TransGen.head' hstep hback)
  | [_], h => exact absurd h.two_le_length (by simp)
  | [], h => exact absurd h.two_le_length (by simp)

theorem IsCycle.mono {r s : α → α → Prop} (hrs : ∀ a b, r a b → s a b) {path : List α}
    (h : IsCycle r path) : IsCycle s path :=
  ⟨h.two_le_length, h.closed, h.distinct, h.chain.imp hrs⟩

namespace TaskGraph

/-! ## Registering and wiring -/

/-- The graphs that come of the empty one by registering tasks and wiring, in any order. A wiring
that fails leaves the graph as it was. -/
inductive Reachable : TaskGraph → Prop where
  | empty : Reachable empty
  | add {g : TaskGraph} (h : Reachable g) (name : String) (dependencies : List String) :
      Reachable (g.add name dependencies).1
  | wire {g wired : TaskGraph} (h : Reachable g) (hw : g.wire = .ok wired) : Reachable wired

theorem run_addEdges (edges : List Edge) (g : TaskGraph) :
    (addEdges edges).run g = (.ok (), { g with edges := edges.foldl addEdge g.edges }) := by
  induction edges generalizing g with
  | nil => rfl
  | cons edge rest ih => exact ih { g with edges := addEdge g.edges edge }

/-- A wiring fails before it has added an edge, or it adds them all. -/
theorem run_wiring (g : TaskGraph) :
    wiring.run g =
      if g.missing.isEmpty then (.ok (), { g with edges := g.declaredEdges.foldl addEdge g.edges })
      else (.error (.missing g.missing), g) := by
  have hlook : wiring.run g =
      ExceptT.run (if g.missing.isEmpty then addEdges g.declaredEdges
        else throw (.missing g.missing)) g := rfl
  rw [hlook]
  split
  · exact run_addEdges g.declaredEdges g
  · rfl

theorem wire_eq (g : TaskGraph) :
    g.wire =
      if g.missing.isEmpty then .ok { g with edges := g.declaredEdges.foldl addEdge g.edges }
      else .error (.missing g.missing) := by
  rw [wire, run_wiring]
  by_cases hnone : g.missing.isEmpty = true
  · rw [if_pos hnone, if_pos hnone]
    rfl
  · rw [if_neg hnone, if_neg hnone]
    rfl

/-- A wiring that fails leaves the graph as it was. -/
theorem run_wiring_eq (g : TaskGraph) :
    wiring.run g = match g.wire with
      | .ok next => (.ok (), next)
      | .error error => (.error error, g) := by
  rw [wire_eq, run_wiring]
  split <;> rfl

/-- Wiring adds edges and nothing else. -/
theorem wire_eq_ok {g wired : TaskGraph} (h : g.wire = .ok wired) :
    g.missing = [] ∧ wired = { g with edges := g.declaredEdges.foldl addEdge g.edges } := by
  rw [wire_eq] at h
  split at h
  · rename_i hm
    exact ⟨List.isEmpty_iff.mp hm, (Except.ok.inj h).symm⟩
  · cases h

/-- A new name is numbered; a known one changes nothing. -/
theorem numbers_add {g : TaskGraph} (h : g.places.Numbers g.names) (name : String)
    (dependencies : List String) :
    (g.add name dependencies).1.places.Numbers (g.add name dependencies).1.names := by
  cases hi : g.index? name with
  | some index =>
      rw [add_known hi]
      exact h
  | none =>
      have hnew : name ∉ g.names := h.get?_eq_none_iff.mp hi
      have hsize : g.size = g.names.length := by simp [size, names]
      simpa [add, hi, names, hsize] using h.insert hnew

/-- The places of the names are their places in order of registration. -/
theorem Reachable.numbers {g : TaskGraph} (h : Reachable g) : g.places.Numbers g.names := by
  induction h with
  | empty => exact OrderedMap.numbers_empty
  | add _ name dependencies ih => exact numbers_add ih name dependencies
  | wire _ hw ih =>
      rw [(wire_eq_ok hw).2]
      exact ih

/-! ## Graphs of lists -/

theorem reachable_foldl_add (tasks : List (String × List String)) {g : TaskGraph}
    (h : g.Reachable) : (tasks.foldl (fun g task => (g.add task.1 task.2).1) g).Reachable := by
  induction tasks generalizing g with
  | nil => exact h
  | cons task rest ih => exact ih (h.add task.1 task.2)

theorem reachable_ofList (tasks : List (String × List String)) : (ofList tasks).Reachable :=
  reachable_foldl_add tasks .empty

/-- Tasks with distinct new names are registered as they stand. -/
theorem nodes_foldl_add (tasks : List (String × List String)) {g : TaskGraph}
    (hg : g.places.Numbers g.names) (h : (g.names ++ tasks.map Prod.fst).Nodup) :
    (tasks.foldl (fun g task => (g.add task.1 task.2).1) g).nodes =
      g.nodes ++ tasks.map fun task => ⟨task.1, task.2⟩ := by
  induction tasks generalizing g with
  | nil => simp
  | cons task rest ih =>
      have hnew : task.1 ∉ g.names := by
        intro hmem
        rw [List.nodup_append] at h
        exact h.2.2 _ hmem _ (by simp) rfl
      have hnone : g.index? task.1 = none := hg.get?_eq_none_iff.mpr hnew
      have hnodes : (g.add task.1 task.2).1.nodes = g.nodes ++ [⟨task.1, task.2⟩] := by
        simp [add, hnone]
      have hnames : (g.add task.1 task.2).1.names = g.names ++ [task.1] := by
        simp [names, hnodes]
      have hrest := ih (numbers_add hg task.1 task.2) (by rw [hnames]; simpa using h)
      rw [List.foldl_cons, hrest, hnodes]
      simp

theorem nodes_ofList {tasks : List (String × List String)} (h : (tasks.map Prod.fst).Nodup) :
    (ofList tasks).nodes = tasks.map fun task => ⟨task.1, task.2⟩ := by
  have hempty : (empty.names ++ tasks.map Prod.fst).Nodup := h
  exact nodes_foldl_add tasks Reachable.empty.numbers hempty

/-! ## The relation -/

/-- A registered task declares a dependency on a registered task. -/
def DependsOn (g : TaskGraph) (task dependency : String) : Prop :=
  ∃ node ∈ g.nodes, node.name = task ∧ dependency ∈ node.dependencies ∧ dependency ∈ g.names

/-- One place has another one among its successors. -/
def Adjacent (successors : List (List Nat)) (node next : Nat) : Prop :=
  next ∈ successors[node]?.getD []

theorem Adjacent.lt_length {successors : List (List Nat)} {node next : Nat}
    (h : Adjacent successors node next) : node < successors.length := by
  by_contra hge
  rw [Adjacent, List.getElem?_eq_none (by omega)] at h
  simp at h

@[simp] theorem length_successors (g : TaskGraph) : g.successors.length = g.size := by
  simp [successors, size]

theorem adjacent_iff {g : TaskGraph} (hg : g.places.Numbers g.names) {node next : Nat} :
    Adjacent g.successors node next ↔
      ∃ entry dependency, g.nodes[node]? = some entry ∧ dependency ∈ entry.dependencies ∧
        g.names[next]? = some dependency := by
  unfold Adjacent successors
  rw [List.getElem?_map]
  cases g.nodes[node]? with
  | none => simp
  | some entry =>
      simp only [Option.map_some, Option.getD_some, List.mem_filterMap, index?,
        hg.get?_eq_some_iff]
      constructor
      · rintro ⟨dependency, hd, hn⟩
        exact ⟨entry, dependency, rfl, hd, hn⟩
      · rintro ⟨other, dependency, he, hd, hn⟩
        cases he
        exact ⟨dependency, hd, hn⟩

theorem Adjacent.next_lt_length {g : TaskGraph} (hg : g.places.Numbers g.names) {node next : Nat}
    (h : Adjacent g.successors node next) : next < g.size := by
  obtain ⟨-, dependency, -, -, hn⟩ := (adjacent_iff hg).mp h
  obtain ⟨hlt, -⟩ := List.getElem?_eq_some_iff.mp hn
  simpa [names, size] using hlt

theorem nameAt_eq {g : TaskGraph} {index : Nat} {name : String}
    (h : g.names[index]? = some name) : g.nameAt index = name := by
  rw [names, List.getElem?_map] at h
  simp [nameAt, h]

theorem getElem?_names {g : TaskGraph} {index : Nat} (h : index < g.size) :
    g.names[index]? = some (g.nameAt index) := by
  have hlt : index < g.nodes.length := h
  simp [names, nameAt, hlt]

theorem map_nameAt_range (g : TaskGraph) : (List.range g.size).map g.nameAt = g.names := by
  apply List.ext_getElem?
  intro index
  rw [List.getElem?_map]
  by_cases hindex : index < g.size
  · rw [List.getElem?_range hindex, getElem?_names hindex, Option.map_some]
  · have hrange : (List.range g.size)[index]? = none := by
      rw [List.getElem?_eq_none_iff, List.length_range]
      omega
    have hnames : g.names[index]? = none := by
      rw [List.getElem?_eq_none_iff, names, List.length_map]
      exact Nat.le_of_not_lt hindex
    rw [hrange, hnames, Option.map_none]

/-- A dependency between places is one between the names there. -/
theorem dependsOn_nameAt {g : TaskGraph} (hg : g.places.Numbers g.names) {node next : Nat}
    (h : Adjacent g.successors node next) : g.DependsOn (g.nameAt node) (g.nameAt next) := by
  obtain ⟨entry, dependency, hentry, hd, hn⟩ := (adjacent_iff hg).mp h
  have hname : g.nameAt node = entry.name := by simp [nameAt, hentry]
  refine ⟨entry, List.mem_of_getElem? hentry, hname.symm, ?_, ?_⟩
  · rwa [nameAt_eq hn]
  · rw [nameAt_eq hn]
    exact List.mem_of_getElem? hn

/-- A dependency between names is one between their places. -/
theorem adjacent_index {g : TaskGraph} (hg : g.places.Numbers g.names)
    {task dependency : String} (h : g.DependsOn task dependency) :
    Adjacent g.successors ((g.index? task).getD 0) ((g.index? dependency).getD 0) := by
  obtain ⟨entry, hentry, rfl, hd, hn⟩ := h
  obtain ⟨node, hnode⟩ := List.getElem?_of_mem hentry
  obtain ⟨next, hnext⟩ := List.getElem?_of_mem hn
  have htask : g.index? entry.name = some node :=
    hg.get?_eq_some_iff.mpr (by simp [names, hnode])
  have hdependency : g.index? dependency = some next := hg.get?_eq_some_iff.mpr hnext
  rw [htask, hdependency]
  exact (adjacent_iff hg).mpr ⟨entry, dependency, hnode, hd, hnext⟩

theorem acyclic_dependsOn_iff {g : TaskGraph} (hg : g.places.Numbers g.names) :
    Acyclic g.DependsOn ↔ Acyclic (Adjacent g.successors) := by
  constructor
  · intro h node hnode
    exact h (g.nameAt node) (hnode.lift g.nameAt fun _ _ => dependsOn_nameAt hg)
  · intro h name hname
    exact h _ (hname.lift (fun name => (g.index? name).getD 0) fun _ _ => adjacent_index hg)

/-- The names along a cycle of places are a cycle of names. -/
theorem isCycle_map_nameAt {g : TaskGraph} (hg : g.places.Numbers g.names) {path : List Nat}
    (h : IsCycle (Adjacent g.successors) path) : IsCycle g.DependsOn (path.map g.nameAt) where
  two_le_length := by simpa using h.two_le_length
  closed := by rw [List.head?_map, List.getLast?_map, h.closed]
  distinct := by
    -- Every task on the cycle but the last has a successor, so that its place has a name.
    have hlt : ∀ node ∈ path.dropLast, node < g.names.length := by
      intro node hnode
      obtain ⟨i, hi, rfl⟩ := List.getElem_of_mem hnode
      rw [List.length_dropLast] at hi
      have hadj := List.isChain_iff_getElem.mp h.chain i (by omega)
      have hsize := hadj.lt_length
      simpa [names, size] using hsize
    rw [← List.map_dropLast]
    refine List.Nodup.map_on ?_ h.distinct
    intro a ha b hb hab
    have hna := getElem?_names (g := g) (by simpa [names, size] using hlt a ha)
    have hnb := getElem?_names (g := g) (by simpa [names, size] using hlt b hb)
    rw [hab, ← hnb] at hna
    exact (List.getElem?_inj (hlt a ha) hg.nodup).mp hna
  chain := List.isChain_map_of_isChain g.nameAt (fun _ _ => dependsOn_nameAt hg) h.chain

end TaskGraph

end CiPipeline
