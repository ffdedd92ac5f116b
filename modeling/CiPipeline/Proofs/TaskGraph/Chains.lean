import CiPipeline.Proofs.TaskGraph.Sequence
import Mathlib.Data.List.Forall2
import Mathlib.Order.Bounds.Basic

/-!
# Chains of dependencies

Layers, seen from a single name: it stands as far down as the longest chain of what it depends on
goes. Main statement: so do the names in the groups of a graph, and therefore the groups of a fully
wired graph do not hang on the order in which the tasks were registered.
-/

namespace CiPipeline.TaskGraph

/-- The lengths of the chains that go down from a name, each time to something it depends on. -/
def chainLengths (dependsOn : String → String → Prop) (name : String) : Set Nat :=
  {length | ∃ below : List String, (name :: below).IsChain dependsOn ∧ below.length = length}

namespace Layers

variable {names others : List String} {dependsOn : String → String → Prop}
variable {groups moreGroups : List (List String)} {level : Nat} {name : String}

/-! ## The level of a name -/

theorem level_mem_chainLengths (h : Layers names dependsOn groups)
    (hstands : StandsIn groups level name) : level ∈ chainLengths dependsOn name := by
  induction level generalizing name with
  | zero => exact ⟨[], List.IsChain.singleton name, rfl⟩
  | succ level ih =>
      obtain ⟨dependency, hdepends, hbefore⟩ := h.supported level name hstands
      obtain ⟨below, hchain, hlength⟩ := ih hbefore
      exact ⟨dependency :: below, hchain.cons_cons hdepends, by rw [List.length_cons, hlength]⟩

/-- With each dependency a chain comes to an earlier group. -/
theorem length_le_level (h : Layers names dependsOn groups) {below : List String}
    (hstands : StandsIn groups level name) (hchain : (name :: below).IsChain dependsOn) :
    below.length ≤ level := by
  induction below generalizing name level with
  | nil => exact Nat.zero_le _
  | cons dependency below ih =>
      have hearlier := h.earlier name dependency hchain.rel
      obtain ⟨low, hlow⟩ := hearlier.stands_earlier
      have hless := hearlier.lt low level hlow hstands
      have hrest := ih hlow hchain.tail
      rw [List.length_cons]
      omega

theorem isGreatest_level (h : Layers names dependsOn groups)
    (hstands : StandsIn groups level name) :
    IsGreatest (chainLengths dependsOn name) level := by
  refine ⟨h.level_mem_chainLengths hstands, ?_⟩
  rintro _ ⟨below, hchain, rfl⟩
  exact h.length_le_level hstands hchain

theorem standsIn_iff_isGreatest (h : Layers names dependsOn groups) :
    StandsIn groups level name ↔
      name ∈ names ∧ IsGreatest (chainLengths dependsOn name) level := by
  constructor
  · intro hstands
    obtain ⟨group, hgroup, hname⟩ := hstands
    have hmem : name ∈ groups.flatten :=
      List.mem_flatten.mpr ⟨group, List.mem_of_getElem? hgroup, hname⟩
    exact ⟨h.complete.mem_iff.mp hmem, h.isGreatest_level ⟨group, hgroup, hname⟩⟩
  · rintro ⟨hname, hgreatest⟩
    obtain ⟨given, hgiven, -⟩ := h.existsUnique_standsIn hname
    rwa [hgreatest.unique (h.isGreatest_level hgiven)]

/-! ## Two ways of registration -/

theorem lt_length_iff (h : Layers names dependsOn groups) :
    level < groups.length ↔ ∃ name, StandsIn groups level name := by
  constructor
  · intro hlt
    have hgroup : groups[level]? = some groups[level] := List.getElem?_eq_getElem hlt
    obtain ⟨name, hname⟩ := List.exists_mem_of_ne_nil _
      (h.inhabited groups[level] (List.getElem_mem hlt))
    exact ⟨name, groups[level], hgroup, hname⟩
  · rintro ⟨name, group, hgroup, -⟩
    exact (List.getElem?_eq_some_iff.mp hgroup).1

/-- Layers of the same names and dependencies have the same names level by level. -/
theorem forall₂_perm (h : Layers names dependsOn groups) (h' : Layers others dependsOn moreGroups)
    (hnames : ∀ name, name ∈ names ↔ name ∈ others) : List.Forall₂ List.Perm groups moreGroups := by
  have hstands : ∀ level name, StandsIn groups level name ↔ StandsIn moreGroups level name := by
    intro level name
    rw [h.standsIn_iff_isGreatest, h'.standsIn_iff_isGreatest, hnames name]
  have hlength : groups.length = moreGroups.length := by
    apply eq_of_forall_lt_iff
    intro level
    rw [h.lt_length_iff, h'.lt_length_iff]
    exact exists_congr (hstands level)
  refine List.forall₂_of_length_eq_of_get hlength fun level hlt hlt' => ?_
  rw [List.get_eq_getElem, List.get_eq_getElem, List.perm_ext_iff_of_nodup
    ((List.nodup_flatten.mp h.distinct).1 _ (List.getElem_mem hlt))
    ((List.nodup_flatten.mp h'.distinct).1 _ (List.getElem_mem hlt'))]
  intro name
  have hsame := hstands level name
  simpa [StandsIn, hlt, hlt'] using hsame

end Layers

/-! ## The groups of a graph -/

variable {g other : TaskGraph}

theorem mem_names_of_perm (h : g.nodes.Perm other.nodes) (name : String) :
    name ∈ g.names ↔ name ∈ other.names :=
  (h.map Node.name).mem_iff

theorem dependsOn_of_perm (h : g.nodes.Perm other.nodes) (task dependency : String) :
    g.DependsOn task dependency ↔ other.DependsOn task dependency := by
  simp only [DependsOn, h.mem_iff, mem_names_of_perm h]

/-- In a graph without cycles a name stands in the group that its longest chain of edges leads down
to, wired or not; every name stands in one group, none of which is empty, and there in order of
registration. Another graph with the same names and the same dependencies, both fully wired, has the
same names in each group. -/
theorem parallelGroups_exact (h : g.Reachable) (hnone : g.findCycle = none) :
    ∃ groups, g.parallelGroups = .ok groups ∧
      (∀ level name, StandsIn groups level name ↔
        name ∈ g.names ∧ IsGreatest (chainLengths g.WaitsFor name) level) ∧
      groups.flatten.Perm g.names ∧ groups.flatten.Nodup ∧
      (∀ group ∈ groups, group ≠ [] ∧ group.Sublist g.names) ∧
      ∀ other : TaskGraph, other.Reachable → g.FullyWired → other.FullyWired →
        (∀ name, name ∈ g.names ↔ name ∈ other.names) →
        (∀ task dependency, g.DependsOn task dependency ↔ other.DependsOn task dependency) →
        ∃ moreGroups, other.parallelGroups = .ok moreGroups ∧
          List.Forall₂ List.Perm groups moreGroups := by
  have hacyclic := (findCycle_eq_none_iff h.numbers).mp hnone
  obtain ⟨groups, hgroups, hlayers⟩ := parallelGroups_of_acyclic h hacyclic
  refine ⟨groups, hgroups, fun _ _ => hlayers.standsIn_iff_isGreatest, hlayers.complete,
    hlayers.distinct, fun group hgroup => ⟨hlayers.inhabited group hgroup,
    hlayers.ordered group hgroup⟩, ?_⟩
  intro other hother hfull hfull' hnames hdepends
  have hsame : g.DependsOn = other.DependsOn := by
    funext task dependency
    exact propext (hdepends task dependency)
  obtain ⟨moreGroups, hmore, hlayers'⟩ := parallelGroups_of_acyclic hother (hsame ▸ hacyclic)
  rw [hfull.waitsFor_eq h, hsame, ← hfull'.waitsFor_eq hother] at hlayers
  exact ⟨moreGroups, hmore, hlayers.forall₂_perm hlayers' hnames⟩

/-- A task and what it depends on, registered in either order. -/
theorem parallelGroups_of_reordered :
    let operations : List Operation := [.add "app" ["lib"], .add "docs" [], .add "lib" [], .wire]
    let others : List Operation := [.add "lib" [], .add "docs" [], .add "app" ["lib"], .wire]
    (run operations).Reachable ∧ (run operations).findCycle = none ∧
      (run operations).parallelGroups = .ok [["docs", "lib"], ["app"]] ∧
      IsGreatest (chainLengths (run operations).WaitsFor "app") 1 ∧
      ∃ moreGroups, (run others).parallelGroups = .ok moreGroups ∧
        List.Forall₂ List.Perm [["docs", "lib"], ["app"]] moreGroups := by
  intro operations others
  have hg : (run operations).Reachable := reachable_run operations
  have hnone : (run operations).findCycle = none := by decide +kernel
  have hgroups : (run operations).parallelGroups = .ok [["docs", "lib"], ["app"]] := by
    decide +kernel
  obtain ⟨groups, hfound, hlevels, -, -, -, hreordered⟩ := parallelGroups_exact hg hnone
  obtain rfl : [["docs", "lib"], ["app"]] = groups := Except.ok.inj (hgroups.symm.trans hfound)
  have hwired : WiredSince operations :=
    ⟨operations.take 3, [], run operations, rfl, by decide +kernel, rfl⟩
  have hwired' : WiredSince others :=
    ⟨others.take 3, [], run others, rfl, by decide +kernel, rfl⟩
  have hnodes : (run operations).nodes.Perm (run others).nodes := by decide +kernel
  exact ⟨hg, hnone, hgroups, ((hlevels 1 "app").mp ⟨["app"], rfl, by simp⟩).2,
    hreordered (run others) (reachable_run others) (fullyWired_of_wiredSince hwired)
      (fullyWired_of_wiredSince hwired') (mem_names_of_perm hnodes) (dependsOn_of_perm hnodes)⟩

end CiPipeline.TaskGraph
