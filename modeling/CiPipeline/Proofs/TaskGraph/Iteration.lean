import CiPipeline.Proofs.TaskGraph.Recursion

/-!
# The loop of the search

The way and the stack of a search are kept side by side with the colors, and a step looks up
successors and colors by place. Main statement: wherever a search comes they agree, so that no
look-up fails and the start of a cycle is always found on the way; and every iteration uses up a
successor to look at or a task to be done with.
-/

namespace CiPipeline.TaskGraph

namespace Search

/-- A step that is given up as soon as it looks for something that is not there: a color or the
successors of a place out of range, or the start of a cycle on the way. -/
def checkedStep? (successors : List (List Nat)) (search : Search) : Option Progress :=
  match search.stack with
  | [] =>
      match search.roots with
      | [] => some .finished
      | root :: roots => do
          let color ← search.colors[root]?
          let search := { search with roots }
          some (.running (if color = .white then search.enter root else search))
  | (node, position) :: below => do
      let successors ← successors[node]?
      match successors[position]? with
      | none => do
          let _ ← search.colors[node]?
          some (.running (search.leave node))
      | some next => do
          let color ← search.colors[next]?
          let search := { search with stack := (node, position + 1) :: below }
          match color with
          | .white => some (.running (search.enter next))
          | .gray => do
              let way := search.path.reverse
              let start ← way.idxOf? next
              some (.closed (way.drop start ++ [next]))
          | .black => some (.running search)

variable {g : TaskGraph} {successors : List (List Nat)} {search next : Search}

/-! ## Places in range -/

/-- Roots are only taken away. -/
theorem Step.roots_suffix (h : Step successors search (.running next)) :
    next.roots <:+ search.roots := by
  cases h with
  | enterRoot | passRoot => exact List.suffix_cons ..
  | leave | enter | pass => exact List.suffix_rfl

/-- A run that has not ended leads to where it stands. -/
theorem leads_of_run {steps : Nat} (h : run successors steps search = .running next) :
    Leads successors search next := by
  induction steps generalizing search with
  | zero =>
      obtain rfl : search = next := Progress.running.inj h
      exact .refl
  | succ steps ih =>
      rw [run] at h
      cases hstep : search.step successors with
      | running after =>
          rw [hstep] at h
          exact (leads_of_step hstep).trans (ih h)
      | closed | finished =>
          rw [hstep] at h
          cases h

theorem Leads.roots_suffix (h : Leads successors search next) : next.roots <:+ search.roots := by
  induction h with
  | refl => exact List.suffix_rfl
  | @tail search next _ hstep ih =>
      have hcases := step_step successors search
      rw [hstep] at hcases
      exact hcases.roots_suffix.trans ih

theorem Leads.root_lt {size root : Nat} (h : Leads successors (start size) search)
    (hroot : root ∈ search.roots) : root < size :=
  List.mem_range.mp (h.roots_suffix.subset hroot)

/-- A place in range has a color. -/
theorem Marked.exists_color (h : Marked successors search) {place : Nat}
    (hlt : place < successors.length) : ∃ color, search.colors[place]? = some color := by
  rw [← h.length_colors] at hlt
  exact ⟨_, List.getElem?_eq_getElem hlt⟩

/-- Everything that a step looks for is there. -/
theorem checkedStep?_eq (h : Marked successors search)
    (hlt : ∀ node next, Adjacent successors node next → next < successors.length)
    (hroots : ∀ root ∈ search.roots, root < successors.length) :
    search.checkedStep? successors = some (search.step successors) := by
  obtain ⟨roots, colors, path, stack⟩ := search
  match stack with
  | [] =>
      match roots with
      | [] => rfl
      | root :: roots =>
          obtain ⟨color, hcolor⟩ := h.exists_color (hroots root List.mem_cons_self)
          cases color <;> simp [checkedStep?, step, hcolor]
  | (node, position) :: below =>
      have hpath : path = node :: below.map Prod.fst := h.path_eq
      have hnode : node ∈ path := by simp [hpath]
      have hrow : successors[node]? = some (row successors node) := by
        rw [row, List.getElem?_eq_getElem (h.lt_of_mem_path hnode), Option.getD_some]
      cases hn : (row successors node)[position]? with
      | none =>
          have hgray : colors[node]? = some .gray := (h.gray_iff node).mpr hnode
          rw [step_leave roots path below hn]
          simp [checkedStep?, hrow, hn, hgray]
      | some next =>
          have hadjacent : Adjacent successors node next := adjacent_of_getElem? hn
          obtain ⟨color, hcolor⟩ := h.exists_color (hlt node next hadjacent)
          cases color with
          | white =>
              rw [step_enter roots path below hn hcolor]
              simp [checkedStep?, hrow, hn, hcolor]
          | gray =>
              have hmem : next ∈ path.reverse := List.mem_reverse.mpr ((h.gray_iff next).mp hcolor)
              obtain ⟨start, hstart⟩ := Option.isSome_iff_exists.mp (List.isSome_idxOf?.mpr hmem)
              rw [step_close roots path below hn hcolor, cycleFrom]
              simp [checkedStep?, hrow, hn, hcolor, hstart]
          | black =>
              rw [step_pass roots path below hn (by simp [hcolor]) (by simp [hcolor])]
              simp [checkedStep?, hrow, hn, hcolor]

/-! ## Iterations -/

/-- An iteration on a way that has not come back to its root leaves the roots alone, so it uses up
a successor or a task. -/
theorem iteration_lt (h : Invariant successors search) (hstack : search.stack ≠ [])
    (hstep : search.step successors = .running next) :
    unread successors next + next.pending < unread successors search + search.pending := by
  have hcases := step_step successors search
  rw [hstep] at hcases
  have hroots : next.roots = search.roots := by
    cases hcases with
    | enterRoot | passRoot => exact absurd rfl hstack
    | leave | enter | pass => rfl
  have hless := remaining_step h hcases
  rw [remaining, remaining, hroots] at hless
  exact Nat.lt_of_add_lt_add_left hless

end Search

variable {g : TaskGraph}

theorem adjacent_of_dependsOn_nameAt (hg : g.places.Numbers g.names) {place next : Nat}
    (hplace : place < g.size) (hnext : next < g.size)
    (h : g.DependsOn (g.nameAt place) (g.nameAt next)) : Adjacent g.successors place next := by
  have hindex {index : Nat} (hlt : index < g.size) : g.index? (g.nameAt index) = some index :=
    hg.get?_eq_some_iff.mpr (getElem?_names hlt)
  have hadjacent := adjacent_index hg h
  rwa [hindex hplace, hindex hnext] at hadjacent

/-- The way, the stack and the colors of a search agree with each other and with what the tasks
declare. -/
structure Agrees (g : TaskGraph) (search : Search) : Prop where
  /-- Both are held with the newest task first. -/
  path_eq : search.path = search.stack.map Prod.fst
  nodup : search.path.Nodup
  gray_iff (place : Nat) : search.colors[place]? = some .gray ↔ place ∈ search.path
  chain : (search.path.reverse.map g.nameAt).IsChain g.DependsOn
  black_closed (place next : Nat) : search.colors[place]? = some .black → next < g.size →
    g.DependsOn (g.nameAt place) (g.nameAt next) → search.colors[next]? = some .black
  length_colors : search.colors.length = g.size

theorem Search.Marked.agrees {search : Search} (hg : g.places.Numbers g.names)
    (h : Search.Marked g.successors search) : g.Agrees search where
  path_eq := h.path_eq
  nodup := h.nodup
  gray_iff := h.gray_iff
  chain := by
    rw [List.isChain_map, List.isChain_reverse]
    exact h.chain.imp fun _ _ => dependsOn_nameAt hg
  black_closed := by
    intro place next hblack hnext hdepends
    obtain ⟨hlt, -⟩ := List.getElem?_eq_some_iff.mp hblack
    rw [h.length_colors, TaskGraph.length_successors] at hlt
    exact h.black_closed place next hblack (adjacent_of_dependsOn_nameAt hg hlt hnext hdepends)
  length_colors := by rw [h.length_colors, TaskGraph.length_successors]

/-- After any number of steps the way is that of the stack, without a task twice; it is made up of
the gray tasks and follows declared dependencies, and black tasks depend on black ones only. So the
next step finds all that it looks for, the start of a cycle among it, and an iteration on a way
uses up a successor or a task; the search ends. -/
theorem search_iterates {g : TaskGraph} (h : g.Reachable) :
    (∀ steps search, Search.run g.successors steps (Search.start g.size) = .running search →
      g.Agrees search ∧
      search.checkedStep? g.successors = some (search.step g.successors) ∧
      ∀ next, search.stack ≠ [] → search.step g.successors = .running next →
        Search.unread g.successors next + next.pending <
          Search.unread g.successors search + search.pending) ∧
    ∀ search, g.search ≠ .running search := by
  refine ⟨fun steps search hrun => ?_, search_ne_running h.numbers⟩
  have hleads := Search.leads_of_run hrun
  have hinvariant : Search.Invariant g.successors search :=
    hleads.invariant h.numbers (invariant_start_size g)
  have hlt (node next : Nat) (hadjacent : Adjacent g.successors node next) :
      next < g.successors.length := by
    rw [length_successors]
    exact hadjacent.next_lt_length h.numbers
  have hroots (root : Nat) (hroot : root ∈ search.roots) : root < g.successors.length := by
    rw [length_successors]
    exact hleads.root_lt hroot
  exact ⟨hinvariant.toMarked.agrees h.numbers,
    Search.checkedStep?_eq hinvariant.toMarked hlt hroots,
    fun next => Search.iteration_lt hinvariant⟩

/-- A ring that is entered from outside, with a task that has been done with and an unknown name
among its dependencies, two iterations before the ring is closed. -/
theorem search_iterates_around_ring :
    let g := ofList [("x", ["y", "a"]), ("y", []), ("a", ["ghost", "b"]), ("b", ["y", "a"])]
    let search : Search :=
      ⟨[1, 2, 3], [.gray, .black, .gray, .gray], [3, 2, 0], [(3, 0), (2, 1), (0, 2)]⟩
    let next := { search with stack := [(3, 1), (2, 1), (0, 2)] }
    Search.run g.successors 5 (Search.start g.size) = .running search ∧ g.Agrees search ∧
      search.step g.successors = .running next ∧
      Search.unread g.successors next + next.pending <
        Search.unread g.successors search + search.pending ∧
      next.checkedStep? g.successors = some (.closed [2, 3, 2]) := by
  intro g search next
  have hg : g.Reachable := reachable_ofList _
  have hsearch : Search.run g.successors 5 (Search.start g.size) = .running search := by
    decide +kernel
  have hnext : Search.run g.successors 6 (Search.start g.size) = .running next := by
    decide +kernel
  have hstep : search.step g.successors = .running next := by decide +kernel
  obtain ⟨hagrees, -, hless⟩ := (search_iterates hg).1 5 search hsearch
  obtain ⟨-, hchecked, -⟩ := (search_iterates hg).1 6 next hnext
  refine ⟨hsearch, hagrees, hstep, hless next (by simp [search]) hstep, ?_⟩
  rw [hchecked]
  decide +kernel

end CiPipeline.TaskGraph
