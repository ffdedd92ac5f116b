import CiPipeline.Proofs.TaskGraph.Order
import Mathlib.Logic.Function.Iterate

/-!
# Visits with a stack

The order of execution, found without recursion: the visits that are still to come wait on a stack,
and a task whose dependents have been put there waits below them until it comes up again. A task may
wait more than once. Main statement: where the edges form no cycle, the stack runs empty, and the
tasks are done with in the order of the recursive visits.
-/

namespace CiPipeline.TaskGraph

/-- Visits of all tasks with their stack as a value. -/
structure Agenda where
  /-- The tasks from which visits have still to start. -/
  roots : List Nat
  /-- The tasks that wait to be visited or to be done with, newest first. -/
  stack : List Nat
  discovered : List Nat
  /-- The tasks that are done with, latest first. -/
  finished : List Nat
deriving DecidableEq

namespace Agenda

def start (size : Nat) : Agenda := ⟨List.range size, [], [], []⟩

/-- Discovers the newest task and puts what depends on it on top of it, the oldest edge uppermost;
or takes it away if it was discovered before, and then it is done with, if it is not yet. -/
def step (g : TaskGraph) (agenda : Agenda) : Agenda :=
  match agenda.stack with
  | [] =>
      match agenda.roots with
      | [] => agenda
      | root :: roots =>
          { agenda with roots, stack := if agenda.discovered.contains root then [] else [root] }
  | index :: below =>
      if agenda.discovered.contains index then
        { agenda with
            stack := below
            finished :=
              if agenda.finished.contains index then agenda.finished
              else index :: agenda.finished }
      else
        let discovered := index :: agenda.discovered
        { agenda with
            stack := (g.dependents index).filter (!discovered.contains ·) ++ agenda.stack
            discovered }

/-- Steps lead from one agenda to another one. -/
def Leads (g : TaskGraph) (agenda next : Agenda) : Prop :=
  ∃ steps, (step g)^[steps] agenda = next

/-- The agenda of recursive visits that have come this far, with more to be done. -/
def ofVisit (roots stack : List Nat) (state : Visit) : Agenda :=
  ⟨roots, stack, state.seen, state.order⟩

variable {g : TaskGraph}

theorem Leads.refl (agenda : Agenda) : Leads g agenda agenda := ⟨0, rfl⟩

theorem Leads.trans {first second third : Agenda} (h : Leads g first second)
    (h' : Leads g second third) : Leads g first third := by
  obtain ⟨steps, rfl⟩ := h
  obtain ⟨more, rfl⟩ := h'
  exact ⟨more + steps, Function.iterate_add_apply _ more steps first⟩

theorem leads_step (agenda : Agenda) : Leads g agenda (agenda.step g) := ⟨1, rfl⟩

/-! ## Single steps -/

variable {roots below : List Nat} {state : Visit} {index : Nat}

theorem step_of_new (hnew : index ∉ state.seen) :
    (ofVisit roots (index :: below) state).step g =
      ofVisit roots
        ((g.dependents index).filter (!(index :: state.seen).contains ·) ++ index :: below)
        { state with seen := index :: state.seen } := by
  simp [step, ofVisit, hnew]

theorem step_of_seen (hseen : index ∈ state.seen) (horder : index ∉ state.order) :
    (ofVisit roots (index :: below) state).step g =
      ofVisit roots below { state with order := index :: state.order } := by
  simp [step, ofVisit, hseen, horder]

theorem step_of_done (hseen : index ∈ state.seen) (horder : index ∈ state.order) :
    (ofVisit roots (index :: below) state).step g = ofVisit roots below state := by
  simp [step, ofVisit, hseen, horder]

theorem step_root (root : Nat) (roots : List Nat) (state : Visit) :
    (ofVisit (root :: roots) [] state).step g =
      ofVisit roots (if root ∈ state.seen then [] else [root]) state := by
  simp [step, ofVisit]

end Agenda

/-! ## The recursive visits, step by step -/

variable {g : TaskGraph} {opened : List Nat} {state : Visit} {index : Nat}

theorem visit_of_seen (hseen : index ∈ state.seen) (fuel : Nat) :
    g.visit fuel state index = state := by
  cases fuel with
  | zero => rfl
  | succ fuel => rw [visit, if_pos (List.contains_iff_mem.mpr hseen)]

theorem Visit.Extends.seen_subset {next : Visit} (h : Visit.Extends g opened state next)
    (hstate : state.Consistent g opened) : state.seen ⊆ next.seen := by
  intro other hother
  refine h.consistent.perm.mem_iff.mpr (List.mem_append.mpr ?_)
  exact (List.mem_append.mp (hstate.perm.mem_iff.mp hother)).imp_right fun horder =>
    h.suffix.mem horder

/-- An open place is not done with. -/
theorem Visit.Consistent.not_mem_order (h : state.Consistent g opened) (hopen : index ∈ opened) :
    index ∉ state.order := by
  have hnodup : (opened ++ state.order).Nodup := h.perm.nodup_iff.mp h.nodup
  exact fun horder => (List.nodup_append.mp hnodup).2.2 index hopen index horder rfl

/-- What a recursive visit does, steps on the stack do, whatever waits below. -/
def Tracks (g : TaskGraph) (fuel : Nat) : Prop :=
  ∀ (opened : List Nat) (state : Visit) (index : Nat) (roots below : List Nat),
    state.Consistent g opened → g.size ≤ fuel + state.seen.length → index < g.size →
    (∀ earlier ∈ opened, Relation.TransGen g.Wired earlier index) →
    Agenda.Leads g (.ofVisit roots (index :: below) state)
      (.ofVisit roots below (g.visit fuel state index))

/-- Visits one after the other. Those that the stack leaves out are of places seen before. -/
theorem Tracks.foldl {fuel : Nat} (h : g.Tracks fuel) (hvisits : g.Visits fuel)
    (roots below : List Nat) {indices skipped : List Nat} (hstate : state.Consistent g opened)
    (hfuel : g.size ≤ fuel + state.seen.length) (hskipped : skipped ⊆ state.seen)
    (hindices : ∀ index ∈ indices,
      index < g.size ∧ ∀ earlier ∈ opened, Relation.TransGen g.Wired earlier index) :
    Agenda.Leads g (.ofVisit roots (indices.filter (!skipped.contains ·) ++ below) state)
      (.ofVisit roots below (indices.foldl (g.visit fuel) state)) := by
  induction indices generalizing state with
  | nil => exact Agenda.Leads.refl _
  | cons index rest ih =>
      obtain ⟨hindex, hearlier⟩ := hindices index List.mem_cons_self
      have hrest : ∀ other ∈ rest, other < g.size ∧
          ∀ earlier ∈ opened, Relation.TransGen g.Wired earlier other :=
        fun other hother => hindices other (List.mem_cons_of_mem _ hother)
      rw [List.foldl_cons]
      by_cases hskip : index ∈ skipped
      · rw [List.filter_cons_of_neg (by simpa using hskip), visit_of_seen (hskipped hskip)]
        exact ih hstate hfuel hskipped hrest
      · rw [List.filter_cons_of_pos (by simpa using hskip), List.cons_append]
        obtain ⟨hfirst, -⟩ := hvisits opened state index hstate hfuel hindex hearlier
        have hlength := hfirst.length_seen hstate
        have hgrown := List.Subset.trans hskipped (hfirst.seen_subset hstate)
        have hthen := ih hfirst.consistent (by omega) hgrown hrest
        exact (h opened state index roots _ hstate hfuel hindex hearlier).trans hthen

/-- A place that is come to again is taken from the stack and nothing else happens: without a cycle
it is done with. -/
theorem leads_of_seen (hacyclic : Acyclic g.Wired) (hstate : state.Consistent g opened)
    (hearlier : ∀ earlier ∈ opened, Relation.TransGen g.Wired earlier index)
    (hseen : index ∈ state.seen) (roots below : List Nat) :
    Agenda.Leads g (.ofVisit roots (index :: below) state) (.ofVisit roots below state) := by
  have hstep := Agenda.leads_step (g := g) (.ofVisit roots (index :: below) state)
  rwa [Agenda.step_of_done hseen (hstate.mem_order hacyclic hearlier hseen)] at hstep

theorem tracks (hacyclic : Acyclic g.Wired)
    (hbounded : ∀ dependency dependent, g.Wired dependency dependent → dependent < g.size)
    (fuel : Nat) : g.Tracks fuel := by
  induction fuel with
  | zero =>
      intro opened state index roots below hstate hfuel hindex hearlier
      have hseen : index ∈ state.seen := hstate.mem_seen (by omega) hindex
      exact leads_of_seen hacyclic hstate hearlier hseen roots below
  | succ fuel ih =>
      intro opened state index roots below hstate hfuel hindex hearlier
      by_cases hseen : index ∈ state.seen
      · rw [visit_of_seen hseen]
        exact leads_of_seen hacyclic hstate hearlier hseen roots below
      · have hentered := hstate.enter hseen hindex
        have hways := ways_of_dependents hbounded hearlier
        have hspent : g.size ≤ fuel + (index :: state.seen).length := by
          rw [List.length_cons]
          omega
        have hvisits := visits hacyclic hbounded fuel
        obtain ⟨hinner, -⟩ := hvisits.foldl hentered hspent hways
        -- The place itself comes up again below its dependents, and is still open then.
        have hreturn : index ∈ ((g.dependents index).foldl (g.visit fuel)
            { state with seen := index :: state.seen }).seen :=
          hinner.seen_subset hentered List.mem_cons_self
        have hnotyet := hinner.consistent.not_mem_order List.mem_cons_self
        have hdiscover := Agenda.leads_step (g := g) (.ofVisit roots (index :: below) state)
        rw [Agenda.step_of_new hseen] at hdiscover
        have hthrough := ih.foldl hvisits roots (index :: below) hentered hspent
          (List.Subset.refl _) hways
        have hfinish := Agenda.leads_step (g := g) (.ofVisit roots (index :: below)
          ((g.dependents index).foldl (g.visit fuel) { state with seen := index :: state.seen }))
        rw [Agenda.step_of_seen hreturn hnotyet] at hfinish
        rw [visit, if_neg (by simpa using hseen)]
        exact (hdiscover.trans hthrough).trans hfinish

/-- Visits from all roots. A root that was discovered on the way from an earlier one is passed
over. -/
theorem leads_roots (hacyclic : Acyclic g.Wired)
    (hbounded : ∀ dependency dependent, g.Wired dependency dependent → dependent < g.size)
    {roots : List Nat} (hstate : state.Consistent g []) (hroots : ∀ root ∈ roots, root < g.size) :
    Agenda.Leads g (.ofVisit roots [] state)
      (.ofVisit [] [] (roots.foldl (g.visit g.size) state)) := by
  induction roots generalizing state with
  | nil => exact Agenda.Leads.refl _
  | cons root rest ih =>
      have hroot : root < g.size := hroots root List.mem_cons_self
      have hrest : ∀ other ∈ rest, other < g.size :=
        fun other hother => hroots other (List.mem_cons_of_mem _ hother)
      have hnext := Agenda.leads_step (g := g) (.ofVisit (root :: rest) [] state)
      rw [Agenda.step_root] at hnext
      rw [List.foldl_cons]
      by_cases hseen : root ∈ state.seen
      · rw [if_pos hseen] at hnext
        rw [visit_of_seen hseen]
        exact hnext.trans (ih hstate hrest)
      · rw [if_neg hseen] at hnext
        have hfuel : g.size ≤ g.size + state.seen.length := Nat.le_add_right _ _
        have hvisit := tracks hacyclic hbounded g.size [] state root rest [] hstate hfuel hroot
          (by simp)
        obtain ⟨hvisited, -⟩ := visits hacyclic hbounded g.size [] state root hstate hfuel hroot
          (by simp)
        exact (hnext.trans hvisit).trans (ih hvisited.consistent hrest)

/-- The stack runs empty, and the tasks are done with in the order of the recursive visits. -/
theorem leads_arrange (hacyclic : Acyclic g.Wired)
    (hbounded : ∀ dependency dependent, g.Wired dependency dependent → dependent < g.size) :
    ∃ discovered, Agenda.Leads g (.start g.size) ⟨[], [], discovered, g.arrange⟩ :=
  ⟨_, leads_roots hacyclic hbounded Visit.consistent_start (by simp)⟩

end CiPipeline.TaskGraph
