import CiPipeline.Proofs.TaskGraph.Search

/-!
# Reported cycles

The search of a graph always ends within its bound, and what it reports is a cycle of declared
dependencies among registered tasks. It reports nothing only where there is none.
-/

namespace CiPipeline.TaskGraph

/-! ## The search of a graph -/

theorem remaining_start_lt_searchBound (g : TaskGraph) :
    Search.remaining g.successors (Search.start g.size) < g.searchBound := by
  have hstart := Search.remaining_start g.successors
  rw [length_successors] at hstart
  rw [hstart, searchBound]
  omega

theorem invariant_start_size (g : TaskGraph) :
    Search.Invariant g.successors (Search.start g.size) := by
  rw [← length_successors]
  exact Search.invariant_start

theorem settles_search {g : TaskGraph} (hg : g.places.Numbers g.names) :
    g.search.Settles g.successors := by
  refine Search.settles_run (fun node next hadj => ?_) (invariant_start_size g)
    (remaining_start_lt_searchBound g)
  rw [length_successors]
  exact hadj.next_lt_length hg

theorem search_ne_running {g : TaskGraph} (hg : g.places.Numbers g.names) (next : Search) :
    g.search ≠ .running next := by
  intro hrunning
  have hsettles := settles_search hg
  rw [hrunning] at hsettles
  exact hsettles

theorem isCycle_of_findCycle {g : TaskGraph} (hg : g.places.Numbers g.names) {path : List String}
    (h : g.findCycle = some path) : IsCycle g.DependsOn path := by
  have hsettles := settles_search hg
  unfold findCycle at h
  cases hs : g.search with
  | closed cycle =>
      rw [hs] at h hsettles
      cases h
      exact isCycle_map_nameAt hg hsettles
  | running search => simp [hs] at h
  | finished => simp [hs] at h

theorem findCycle_eq_none_iff {g : TaskGraph} (hg : g.places.Numbers g.names) :
    g.findCycle = none ↔ Acyclic g.DependsOn := by
  constructor
  · intro h
    have hsettles := settles_search hg
    unfold findCycle at h
    cases hs : g.search with
    | closed cycle => simp [hs] at h
    | running search => exact absurd hs (search_ne_running hg search)
    | finished =>
        rw [hs] at hsettles
        exact (acyclic_dependsOn_iff hg).mpr hsettles
  · intro h
    cases hf : g.findCycle with
    | none => rfl
    | some path => exact absurd h (isCycle_of_findCycle hg hf).not_acyclic

/-- The search ends; it finds nothing exactly if no way along declared dependencies leads back to
its start, and what it finds is such a way, on which no task comes twice before it closes. -/
theorem findCycle_exact {g : TaskGraph} (h : g.Reachable) :
    (∀ search, g.search ≠ .running search) ∧
      (g.findCycle = none ↔ Acyclic g.DependsOn) ∧
      ∀ path, g.findCycle = some path → IsCycle g.DependsOn path := by
  refine ⟨fun search hrunning => ?_, findCycle_eq_none_iff h.numbers, fun path hpath => ?_⟩
  · have hsettles := settles_search h.numbers
    rw [hrunning] at hsettles
    exact hsettles
  · exact isCycle_of_findCycle h.numbers hpath

/-- A ring that is entered from outside, with an unknown name among its dependencies. -/
theorem findCycle_entered_ring :
    let g := ofList [("x", ["a"]), ("a", ["ghost", "b"]), ("b", ["c", "c"]), ("c", ["a"])]
    g.Reachable ∧ g.findCycle = some ["a", "b", "c", "a"] ∧
      IsCycle g.DependsOn ["a", "b", "c", "a"] := by
  intro g
  have hg : g.Reachable := reachable_ofList _
  have hfound : g.findCycle = some ["a", "b", "c", "a"] := by decide +kernel
  exact ⟨hg, hfound, (findCycle_exact hg).2.2 _ hfound⟩

end CiPipeline.TaskGraph
