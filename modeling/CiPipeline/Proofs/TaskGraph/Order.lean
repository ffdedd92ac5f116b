import CiPipeline.Proofs.TaskGraph.Cycle
import CiPipeline.Proofs.TaskGraph.Wiring
import Mathlib.Data.List.Perm.Subperm

/-!
# Orders of execution

What the visits of a graph put together. Main statement: where the edges form no cycle, a graph is
sorted, its order has every place once, and everything that depends on a place comes after it.
-/

namespace CiPipeline.TaskGraph

variable {g : TaskGraph}

/-- No place comes twice, and everything that depends on a place comes after it. -/
inductive Arranged (g : TaskGraph) : List Nat → Prop where
  | nil : Arranged g []
  | cons {index : Nat} {rest : List Nat} (hrest : Arranged g rest) (hnew : index ∉ rest)
      (hdependents : ∀ dependent, g.Wired index dependent → dependent ∈ rest) :
      Arranged g (index :: rest)

theorem Arranged.mem_of_wired {order : List Nat} (h : g.Arranged order) {index dependent : Nat}
    (hindex : index ∈ order) (hwired : g.Wired index dependent) : dependent ∈ order := by
  induction h with
  | nil => cases hindex
  | cons _ _ hdependents ih =>
      rcases List.mem_cons.mp hindex with rfl | hrest
      · exact List.mem_cons_of_mem _ (hdependents _ hwired)
      · exact List.mem_cons_of_mem _ (ih hrest)

/-! ## Visits -/

/-- The places that have been seen are those of the order and the open ones, which wait until
everything that depends on them has been visited. -/
structure Visit.Consistent (g : TaskGraph) (opened : List Nat) (state : Visit) : Prop where
  arranged : g.Arranged state.order
  nodup : state.seen.Nodup
  perm : state.seen.Perm (opened ++ state.order)
  bounded : ∀ index ∈ state.seen, index < g.size

/-- Visits keep the order that there is and put other places in front of it. -/
structure Visit.Extends (g : TaskGraph) (opened : List Nat) (state next : Visit) : Prop where
  consistent : next.Consistent g opened
  suffix : state.order <:+ next.order

variable {opened : List Nat} {state : Visit} {index : Nat}

/-- A list of all places leaves none to be seen. -/
theorem Visit.Consistent.mem_seen (h : state.Consistent g opened)
    (hfull : g.size ≤ state.seen.length) (hindex : index < g.size) : index ∈ state.seen := by
  have hsub : state.seen.Subperm (List.range g.size) :=
    List.subperm_of_subset h.nodup fun other hother => List.mem_range.mpr (h.bounded other hother)
  have hperm : state.seen.Perm (List.range g.size) :=
    hsub.perm_of_length_le (by simpa using hfull)
  exact hperm.mem_iff.mpr (List.mem_range.mpr hindex)

theorem Visit.consistent_start : Visit.Consistent g [] ⟨[], []⟩ :=
  ⟨.nil, List.nodup_nil, .refl _, by simp⟩

theorem Visit.Consistent.enter (h : state.Consistent g opened) (hnew : index ∉ state.seen)
    (hindex : index < g.size) :
    Visit.Consistent g (index :: opened) { state with seen := index :: state.seen } where
  arranged := h.arranged
  nodup := List.nodup_cons.mpr ⟨hnew, h.nodup⟩
  perm := h.perm.cons index
  bounded other hother := by
    rcases List.mem_cons.mp hother with rfl | hold
    · exact hindex
    · exact h.bounded other hold

theorem Visit.Consistent.leave (h : state.Consistent g (index :: opened))
    (hdependents : ∀ dependent, g.Wired index dependent → dependent ∈ state.order) :
    Visit.Consistent g opened { state with order := index :: state.order } where
  arranged := by
    have hnodup : (index :: opened ++ state.order).Nodup := h.perm.nodup_iff.mp h.nodup
    have hnew : index ∉ state.order := by
      intro hmem
      exact (List.nodup_cons.mp hnodup).1 (List.mem_append_right _ hmem)
    exact .cons h.arranged hnew hdependents
  nodup := h.nodup
  perm := h.perm.trans List.perm_middle.symm
  bounded := h.bounded

/-- A visit with enough fuel puts its place into the order, unless the way there leads over an open
place that depends on it. -/
def Visits (g : TaskGraph) (fuel : Nat) : Prop :=
  ∀ (opened : List Nat) (state : Visit) (index : Nat), state.Consistent g opened →
    g.size ≤ fuel + state.seen.length → index < g.size →
    (∀ earlier ∈ opened, Relation.TransGen g.Wired earlier index) →
    Visit.Extends g opened state (g.visit fuel state index) ∧
      index ∈ (g.visit fuel state index).order

theorem Visit.Extends.length_seen {next : Visit} (h : Visit.Extends g opened state next)
    (hstate : state.Consistent g opened) : state.seen.length ≤ next.seen.length := by
  have hlength := h.suffix.length_le
  rw [hstate.perm.length_eq, h.consistent.perm.length_eq, List.length_append, List.length_append]
  omega

/-- Visits one after the other, each with the same fuel. -/
theorem Visits.foldl {fuel : Nat} (h : g.Visits fuel) {indices : List Nat}
    (hstate : state.Consistent g opened) (hfuel : g.size ≤ fuel + state.seen.length)
    (hindices : ∀ index ∈ indices,
      index < g.size ∧ ∀ earlier ∈ opened, Relation.TransGen g.Wired earlier index) :
    Visit.Extends g opened state (indices.foldl (g.visit fuel) state) ∧
      ∀ index ∈ indices, index ∈ (indices.foldl (g.visit fuel) state).order := by
  induction indices generalizing state with
  | nil => exact ⟨⟨hstate, List.suffix_refl _⟩, by simp⟩
  | cons index rest ih =>
      obtain ⟨hindex, hearlier⟩ := hindices index List.mem_cons_self
      obtain ⟨hfirst, hmem⟩ := h opened state index hstate hfuel hindex hearlier
      have hlength := hfirst.length_seen hstate
      obtain ⟨hrest, hall⟩ := ih hfirst.consistent (by omega) fun other hother =>
        hindices other (List.mem_cons_of_mem _ hother)
      refine ⟨⟨hrest.consistent, hfirst.suffix.trans hrest.suffix⟩, fun other hother => ?_⟩
      rcases List.mem_cons.mp hother with rfl | hother
      · exact hrest.suffix.mem hmem
      · exact hall other hother

/-- A place that is come to again is in the order: an open one would wait for itself. -/
theorem Visit.Consistent.mem_order (h : state.Consistent g opened) (hacyclic : Acyclic g.Wired)
    (hearlier : ∀ earlier ∈ opened, Relation.TransGen g.Wired earlier index)
    (hseen : index ∈ state.seen) : index ∈ state.order := by
  rcases List.mem_append.mp (h.perm.mem_iff.mp hseen) with hopen | horder
  · exact absurd (hearlier index hopen) (hacyclic index)
  · exact horder

/-- From a place that is open now there are ways to everything that depends on it, too. -/
theorem ways_of_dependents
    (hbounded : ∀ dependency dependent, g.Wired dependency dependent → dependent < g.size)
    (hearlier : ∀ earlier ∈ opened, Relation.TransGen g.Wired earlier index) :
    ∀ dependent ∈ g.dependents index, dependent < g.size ∧
      ∀ earlier ∈ index :: opened, Relation.TransGen g.Wired earlier dependent := by
  intro dependent hdependent
  have hwired := mem_dependents.mp hdependent
  refine ⟨hbounded _ _ hwired, fun earlier hopen => ?_⟩
  rcases List.mem_cons.mp hopen with rfl | hopen
  · exact .single hwired
  · exact (hearlier earlier hopen).tail hwired

theorem visits (hacyclic : Acyclic g.Wired)
    (hbounded : ∀ dependency dependent, g.Wired dependency dependent → dependent < g.size)
    (fuel : Nat) : g.Visits fuel := by
  induction fuel with
  | zero =>
      intro opened state index hstate hfuel hindex hearlier
      have hseen : index ∈ state.seen := hstate.mem_seen (by omega) hindex
      exact ⟨⟨hstate, List.suffix_refl _⟩, hstate.mem_order hacyclic hearlier hseen⟩
  | succ fuel ih =>
      intro opened state index hstate hfuel hindex hearlier
      rw [visit]
      split
      · rename_i hknown
        have hseen : index ∈ state.seen := by simpa using hknown
        exact ⟨⟨hstate, List.suffix_refl _⟩, hstate.mem_order hacyclic hearlier hseen⟩
      · rename_i hunknown
        have hnew : index ∉ state.seen := by simpa using hunknown
        have hentered := hstate.enter hnew hindex
        have hspent : g.size ≤ fuel + (index :: state.seen).length := by
          rw [List.length_cons]
          omega
        obtain ⟨hinner, hall⟩ := ih.foldl hentered hspent (ways_of_dependents hbounded hearlier)
        have hleft := hinner.consistent.leave fun dependent hwired =>
          hall dependent (mem_dependents.mpr hwired)
        exact ⟨⟨hleft, hinner.suffix.trans (List.suffix_cons _ _)⟩, List.mem_cons_self⟩

/-! ## The order -/

/-- Every place comes once, and everything that depends on a place comes after it. -/
structure IsOrder (g : TaskGraph) (order : List Nat) : Prop where
  arranged : g.Arranged order
  complete : ∀ index, index ∈ order ↔ index < g.size

theorem isOrder_arrange (hacyclic : Acyclic g.Wired)
    (hbounded : ∀ dependency dependent, g.Wired dependency dependent → dependent < g.size) :
    g.IsOrder g.arrange := by
  have hindices : ∀ index ∈ List.range g.size,
      index < g.size ∧ ∀ earlier ∈ [], Relation.TransGen g.Wired earlier index := by simp
  obtain ⟨hall, hmem⟩ :=
    (visits hacyclic hbounded g.size).foldl Visit.consistent_start (by simp) hindices
  refine ⟨hall.consistent.arranged, fun index => ⟨fun horder => ?_, fun hindex => ?_⟩⟩
  · exact hall.consistent.bounded index (hall.consistent.perm.mem_iff.mpr horder)
  · exact hmem index (List.mem_range.mpr hindex)

/-- Whatever the next place of an order depends on has come before. -/
theorem Arranged.mem_before {before rest : List Nat} (h : g.Arranged (index :: rest))
    (hall : ∀ place, place ∈ before ∨ place ∈ index :: rest ↔ place < g.size)
    (hbounded : ∀ dependency dependent, g.Wired dependency dependent → dependency < g.size)
    {dependency : Nat} (hwired : g.Wired dependency index) : dependency ∈ before := by
  cases h with
  | cons hrest hnew hdependents =>
      rcases (hall dependency).mpr (hbounded _ _ hwired) with hbefore | hlater
      · exact hbefore
      · -- Otherwise the place would come after itself.
        rcases List.mem_cons.mp hlater with rfl | hlater
        · exact absurd (hdependents _ hwired) hnew
        · exact absurd (hrest.mem_of_wired hlater hwired) hnew

theorem Arranged.follows {before order : List Nat} (h : g.Arranged order)
    (hall : ∀ place, place ∈ before ∨ place ∈ order ↔ place < g.size)
    (hbounded : ∀ dependency dependent, g.Wired dependency dependent → dependency < g.size) :
    g.follows before order = true := by
  induction h generalizing before with
  | nil => rfl
  | @cons index rest hrest hnew hdependents ih =>
      have hcome : ∀ dependency ∈ g.wiredDependencies index, dependency ∈ before :=
        fun dependency hdependency =>
          (Arranged.cons hrest hnew hdependents).mem_before hall hbounded
            (mem_wiredDependencies.mp hdependency)
      have hnext : ∀ place, place ∈ index :: before ∨ place ∈ rest ↔ place < g.size := by
        intro place
        rw [← hall place, List.mem_cons, List.mem_cons]
        tauto
      rw [TaskGraph.follows, ih hnext, Bool.and_true, List.all_eq_true]
      simpa using hcome

/-- A graph whose edges form no cycle is sorted. -/
theorem sort?_of_acyclic (h : g.Reachable) (hacyclic : Acyclic g.Wired) :
    ∃ order, g.sort? = some order ∧ g.IsOrder order := by
  have horder := isOrder_arrange hacyclic fun _ _ hwired => (h.wired_lt hwired).2
  have hfollows : g.follows [] g.arrange = true :=
    horder.arranged.follows (by simpa using horder.complete) fun _ _ hwired =>
      (h.wired_lt hwired).1
  exact ⟨g.arrange, if_pos hfollows, horder⟩

theorem sorted_of_acyclic (h : g.Reachable) (hacyclic : Acyclic g.DependsOn) :
    ∃ order, g.sorted = .ok order ∧ g.IsOrder order := by
  obtain ⟨order, hsort, horder⟩ := sort?_of_acyclic h (h.acyclic_wired hacyclic)
  have hnone : g.findCycle = none := (findCycle_eq_none_iff h.numbers).mpr hacyclic
  exact ⟨order, by simp only [sorted, hnone, hsort], horder⟩

/-- Only a cycle of declared dependencies keeps a graph from being sorted, for its edges are among
these. -/
theorem sorted_eq_error_iff (h : g.Reachable) {error : Error} :
    g.sorted = .error error ↔ ∃ path, g.findCycle = some path ∧ error = .cycle path := by
  cases hcycle : g.findCycle with
  | some path => simp [sorted, hcycle, eq_comm]
  | none =>
      have hacyclic := (findCycle_eq_none_iff h.numbers).mp hcycle
      obtain ⟨order, hsorted, -⟩ := sorted_of_acyclic h hacyclic
      simp [hsorted]

end CiPipeline.TaskGraph
