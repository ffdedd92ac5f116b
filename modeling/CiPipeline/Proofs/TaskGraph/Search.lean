import CiPipeline.Proofs.TaskGraph.Dependency
import Mathlib.Algebra.GroupWithZero.Nat

/-!
# The search for a cycle

What one step of the search can do, what every step preserves, and what every step uses up. The
tasks on the current way are the gray ones, and a black task leads to black tasks only. Main
statement: a search with enough steps left ends, with a cycle or with the proof that there is none.
-/

namespace CiPipeline.TaskGraph.Search

/-- The successors of a place. -/
def row (successors : List (List Nat)) (node : Nat) : List Nat := successors[node]?.getD []

/-! ## Steps -/

section Steps

variable {successors : List (List Nat)} (roots path : List Nat) (below : List (Nat × Nat))
variable {colors : List Color} {node position next : Nat}

theorem step_enterRoot (successors : List (List Nat)) {root : Nat}
    (hw : colors[root]? = some .white) :
    step successors ⟨root :: roots, colors, path, []⟩ =
      .running (enter ⟨roots, colors, path, []⟩ root) := by
  simp [step, hw]

theorem step_passRoot (successors : List (List Nat)) {root : Nat}
    (hw : colors[root]? ≠ some .white) :
    step successors ⟨root :: roots, colors, path, []⟩ = .running ⟨roots, colors, path, []⟩ := by
  simp [step, hw]

theorem step_leave (hn : (row successors node)[position]? = none) :
    step successors ⟨roots, colors, path, (node, position) :: below⟩ =
      .running (leave ⟨roots, colors, path, (node, position) :: below⟩ node) := by
  rw [row] at hn
  simp [step, hn]

theorem step_enter (hn : (row successors node)[position]? = some next)
    (hw : colors[next]? = some .white) :
    step successors ⟨roots, colors, path, (node, position) :: below⟩ =
      .running (enter ⟨roots, colors, path, (node, position + 1) :: below⟩ next) := by
  rw [row] at hn
  simp [step, hn, hw]

theorem step_close (hn : (row successors node)[position]? = some next)
    (hg : colors[next]? = some .gray) :
    step successors ⟨roots, colors, path, (node, position) :: below⟩ =
      .closed (cycleFrom path next) := by
  rw [row] at hn
  simp [step, hn, hg]

theorem step_pass (hn : (row successors node)[position]? = some next)
    (hw : colors[next]? ≠ some .white) (hg : colors[next]? ≠ some .gray) :
    step successors ⟨roots, colors, path, (node, position) :: below⟩ =
      .running ⟨roots, colors, path, (node, position + 1) :: below⟩ := by
  rw [row] at hn
  simp [step, hn]

end Steps

/-- All that one step can do, with the tests that lead to it. -/
inductive Step (successors : List (List Nat)) : Search → Progress → Prop where
  | finish {colors : List Color} {path : List Nat} :
      Step successors ⟨[], colors, path, []⟩ .finished
  | enterRoot {root : Nat} {roots : List Nat} {colors : List Color} {path : List Nat}
      (hw : colors[root]? = some .white) :
      Step successors ⟨root :: roots, colors, path, []⟩
        (.running (enter ⟨roots, colors, path, []⟩ root))
  | passRoot {root : Nat} {roots : List Nat} {colors : List Color} {path : List Nat}
      (hw : colors[root]? ≠ some .white) :
      Step successors ⟨root :: roots, colors, path, []⟩ (.running ⟨roots, colors, path, []⟩)
  | leave {roots : List Nat} {colors : List Color} {path : List Nat} {node position : Nat}
      {below : List (Nat × Nat)} (hn : (row successors node)[position]? = none) :
      Step successors ⟨roots, colors, path, (node, position) :: below⟩
        (.running (leave ⟨roots, colors, path, (node, position) :: below⟩ node))
  | enter {roots : List Nat} {colors : List Color} {path : List Nat} {node position next : Nat}
      {below : List (Nat × Nat)} (hn : (row successors node)[position]? = some next)
      (hw : colors[next]? = some .white) :
      Step successors ⟨roots, colors, path, (node, position) :: below⟩
        (.running (enter ⟨roots, colors, path, (node, position + 1) :: below⟩ next))
  | close {roots : List Nat} {colors : List Color} {path : List Nat} {node position next : Nat}
      {below : List (Nat × Nat)} (hn : (row successors node)[position]? = some next)
      (hg : colors[next]? = some .gray) :
      Step successors ⟨roots, colors, path, (node, position) :: below⟩
        (.closed (cycleFrom path next))
  | pass {roots : List Nat} {colors : List Color} {path : List Nat} {node position next : Nat}
      {below : List (Nat × Nat)} (hn : (row successors node)[position]? = some next)
      (hw : colors[next]? ≠ some .white) (hg : colors[next]? ≠ some .gray) :
      Step successors ⟨roots, colors, path, (node, position) :: below⟩
        (.running ⟨roots, colors, path, (node, position + 1) :: below⟩)

theorem adjacent_of_getElem? {successors : List (List Nat)} {node position next : Nat}
    (hn : (row successors node)[position]? = some next) : Adjacent successors node next :=
  List.mem_of_getElem? hn

theorem step_step (successors : List (List Nat)) (search : Search) :
    Step successors search (search.step successors) := by
  obtain ⟨roots, colors, path, stack⟩ := search
  match stack with
  | [] =>
      match roots with
      | [] => exact .finish
      | root :: roots =>
          by_cases hw : colors[root]? = some .white
          · rw [step_enterRoot roots path successors hw]
            exact .enterRoot hw
          · rw [step_passRoot roots path successors hw]
            exact .passRoot hw
  | (node, position) :: below =>
      cases hn : (row successors node)[position]? with
      | none =>
          rw [step_leave roots path below hn]
          exact .leave hn
      | some next =>
          by_cases hw : colors[next]? = some .white
          · rw [step_enter roots path below hn hw]
            exact .enter hn hw
          · by_cases hg : colors[next]? = some .gray
            · rw [step_close roots path below hn hg]
              exact .close hn hg
            · rw [step_pass roots path below hn hw hg]
              exact .pass hn hw hg

/-! ## What every step preserves -/

variable {successors : List (List Nat)}

/-- How the colors mark the way and what has been done with. -/
structure Marked (successors : List (List Nat)) (search : Search) : Prop where
  length_colors : search.colors.length = successors.length
  path_eq : search.path = search.stack.map Prod.fst
  nodup : search.path.Nodup
  gray_iff (node : Nat) : search.colors[node]? = some .gray ↔ node ∈ search.path
  /-- Each task on the way depends on the one that comes after it, which is newer. -/
  chain : search.path.IsChain fun newer older => Adjacent successors older newer
  black_closed (node next : Nat) : search.colors[node]? = some .black →
    Adjacent successors node next → search.colors[next]? = some .black
  black_acyclic (node : Nat) : search.colors[node]? = some .black →
    ¬ Relation.TransGen (Adjacent successors) node node

/-- The successors of each task on the way that have been looked at are black, or stand further
along the way. -/
def Looked (successors : List (List Nat)) (colors : List Color) :
    List Nat → List (Nat × Nat) → Prop
  | _, [] => True
  | newer, (node, position) :: below =>
      (∀ next ∈ (row successors node).take position,
        colors[next]? = some .black ∨ next ∈ newer) ∧
      Looked successors colors (node :: newer) below

structure Invariant (successors : List (List Nat)) (search : Search) : Prop
    extends Marked successors search where
  looked : Looked successors search.colors [] search.stack
  /-- What has not been seen is still to be a root. -/
  rooted (node : Nat) : search.colors[node]? = some .white → node ∈ search.roots

theorem Looked.mono {colors colors' : List Color}
    (hblack : ∀ node : Nat, colors[node]? = some .black → colors'[node]? = some .black)
    {newer newer' : List Nat} {stack : List (Nat × Nat)}
    (hnewer : ∀ node ∈ newer, colors'[node]? = some .black ∨ node ∈ newer')
    (h : Looked successors colors newer stack) : Looked successors colors' newer' stack := by
  induction stack generalizing newer newer' with
  | nil => trivial
  | cons frame below ih =>
      obtain ⟨node, position⟩ := frame
      refine ⟨fun next hnext => ?_, ih (fun other hother => ?_) h.2⟩
      · rcases h.1 next hnext with hb | hn
        · exact .inl (hblack next hb)
        · exact hnewer next hn
      · rcases List.mem_cons.mp hother with rfl | ho
        · exact .inr List.mem_cons_self
        · exact (hnewer other ho).imp_right (List.mem_cons_of_mem node)

/-- One more successor has been looked at. -/
theorem Looked.advance {colors : List Color} {newer : List Nat} {node position next : Nat}
    {below : List (Nat × Nat)} (hn : (row successors node)[position]? = some next)
    (hnext : colors[next]? = some .black ∨ next ∈ newer)
    (h : Looked successors colors newer ((node, position) :: below)) :
    Looked successors colors newer ((node, position + 1) :: below) := by
  refine ⟨fun other hother => ?_, h.2⟩
  rw [List.take_add_one, hn, Option.toList_some, List.mem_append, List.mem_singleton] at hother
  rcases hother with ho | rfl
  · exact h.1 other ho
  · exact hnext

theorem getElem?_set_of_ne {colors : List Color} {node other : Nat} (color : Color)
    (h : other ≠ node) : (colors.set node color)[other]? = colors[other]? := by
  rw [List.getElem?_set, if_neg (Ne.symm h)]

theorem getElem?_set_of_getElem? {colors : List Color} {node : Nat} {old : Color} (color : Color)
    (h : colors[node]? = some old) : (colors.set node color)[node]? = some color := by
  obtain ⟨hlt, -⟩ := List.getElem?_eq_some_iff.mp h
  rw [List.getElem?_set, if_pos rfl, if_pos hlt]

/-- Seeing a task makes no task black and takes no black task away. -/
theorem black_set_gray_iff {colors : List Color} {node other : Nat}
    (hw : colors[node]? = some .white) :
    (colors.set node .gray)[other]? = some .black ↔ colors[other]? = some .black := by
  by_cases ho : other = node
  · subst ho
    simp [getElem?_set_of_getElem? .gray hw, hw]
  · rw [getElem?_set_of_ne .gray ho]

/-- Marks do not hang on the roots and on what has been looked at. -/
theorem Marked.congr {roots roots' : List Nat} {colors : List Color} {path : List Nat}
    {stack stack' : List (Nat × Nat)} (h : Marked successors ⟨roots, colors, path, stack⟩)
    (hstack : stack'.map Prod.fst = stack.map Prod.fst) :
    Marked successors ⟨roots', colors, path, stack'⟩ :=
  { h with path_eq := h.path_eq.trans hstack.symm }

/-- A task that has not been seen becomes the newest one of the way. -/
theorem Marked.enter {search : Search} {node : Nat} (h : Marked successors search)
    (hw : search.colors[node]? = some .white)
    (hadj : ∀ older ∈ search.path.head?, Adjacent successors older node) :
    Marked successors (search.enter node) := by
  have hnot : node ∉ search.path := by
    intro hmem
    rw [← h.gray_iff, hw] at hmem
    cases hmem
  exact {
    length_colors := by simpa [Search.enter] using h.length_colors
    path_eq := by simpa [Search.enter] using h.path_eq
    nodup := List.nodup_cons.mpr ⟨hnot, h.nodup⟩
    gray_iff := by
      intro other
      by_cases ho : other = node
      · subst ho
        simp [Search.enter, getElem?_set_of_getElem? .gray hw]
      · simpa [Search.enter, getElem?_set_of_ne .gray ho, ho] using h.gray_iff other
    chain := List.isChain_cons.mpr ⟨hadj, h.chain⟩
    black_closed := by
      intro other next hb hnext
      exact (black_set_gray_iff hw).mpr
        (h.black_closed other next ((black_set_gray_iff hw).mp hb) hnext)
    black_acyclic := fun other hb => h.black_acyclic other ((black_set_gray_iff hw).mp hb) }

/-- The newest task of the way becomes black once all its successors are. -/
theorem Marked.leave {search : Search} {node : Nat} (h : Marked successors search)
    (hpath : search.path.head? = some node)
    (hsucc : ∀ next, Adjacent successors node next → search.colors[next]? = some .black) :
    Marked successors (search.leave node) := by
  obtain ⟨roots, colors, path, stack⟩ := search
  obtain ⟨older, rfl⟩ : ∃ older, path = node :: older := by
    cases path with
    | nil => cases hpath
    | cons head older => exact ⟨older, by rw [Option.some.inj hpath]⟩
  have hgray : colors[node]? = some .gray := (h.gray_iff node).mpr List.mem_cons_self
  have hnot : node ∉ older := (List.nodup_cons.mp h.nodup).1
  have hblack {other : Nat} : (colors.set node .black)[other]? = some .black ↔
      other = node ∨ colors[other]? = some .black := by
    by_cases ho : other = node
    · subst ho
      simp [getElem?_set_of_getElem? .black hgray]
    · simp [getElem?_set_of_ne .black ho, ho]
  -- What a black task leads to is black, and the newest task was not.
  have hreach {next : Nat} (hb : colors[next]? = some .black) :
      ¬ Relation.ReflTransGen (Adjacent successors) next node := by
    intro hr
    induction hr using Relation.ReflTransGen.head_induction_on with
    | refl => rw [hgray] at hb; cases hb
    | head hstep _ ih => exact ih (h.black_closed _ _ hb hstep)
  exact {
    length_colors := by simpa [Search.leave] using h.length_colors
    path_eq := by
      have hp := h.path_eq
      cases stack with
      | nil => cases hp
      | cons frame below => exact (List.cons.inj hp).2
    nodup := (List.nodup_cons.mp h.nodup).2
    gray_iff := by
      intro other
      by_cases ho : other = node
      · subst ho
        simp [Search.leave, getElem?_set_of_getElem? .black hgray, hnot]
      · simpa [Search.leave, getElem?_set_of_ne .black ho, ho] using h.gray_iff other
    chain := h.chain.tail
    black_closed := by
      intro other next hb hnext
      refine hblack.mpr (.inr ?_)
      rcases hblack.mp hb with rfl | hb
      · exact hsucc next hnext
      · exact h.black_closed other next hb hnext
    black_acyclic := by
      intro other hb hcycle
      rcases hblack.mp hb with rfl | hb
      · obtain ⟨next, hnext, hback⟩ := Relation.TransGen.head'_iff.mp hcycle
        exact hreach (hsucc next hnext) hback
      · exact h.black_acyclic other hb hcycle }

theorem invariant_start : Invariant successors (start successors.length) where
  length_colors := by simp [start]
  path_eq := rfl
  nodup := List.nodup_nil
  gray_iff := by
    intro node
    simp [start, List.getElem?_replicate]
  chain := List.IsChain.nil
  black_closed := by
    intro node next hb
    simp [start, List.getElem?_replicate] at hb
  black_acyclic := by
    intro node hb
    simp [start, List.getElem?_replicate] at hb
  looked := trivial
  rooted := by
    intro node hw
    obtain ⟨hlt, -⟩ := List.getElem?_eq_some_iff.mp hw
    simpa [start] using hlt

theorem Marked.lt_of_mem_path {search : Search} {node : Nat} (h : Marked successors search)
    (hmem : node ∈ search.path) : node < successors.length := by
  obtain ⟨hlt, -⟩ := List.getElem?_eq_some_iff.mp ((h.gray_iff node).mpr hmem)
  rwa [h.length_colors] at hlt

/-- A task that is neither white nor gray is black. -/
theorem black_of_ne {search : Search} {node : Nat} (h : Marked successors search)
    (hlt : node < successors.length) (hw : search.colors[node]? ≠ some .white)
    (hg : search.colors[node]? ≠ some .gray) : search.colors[node]? = some .black := by
  have hlt' : node < search.colors.length := by
    rw [h.length_colors]
    exact hlt
  rw [List.getElem?_eq_getElem hlt'] at hw hg ⊢
  cases hc : search.colors[node] with
  | white => exact absurd (congrArg some hc) hw
  | gray => exact absurd (congrArg some hc) hg
  | black => rfl

theorem invariant_step {search next : Search}
    (hlt : ∀ node other, Adjacent successors node other → other < successors.length)
    (h : Invariant successors search) (hstep : Step successors search (.running next)) :
    Invariant successors next := by
  cases hstep with
  | @enterRoot root roots colors path hw =>
      have hpath : path = [] := h.path_eq
      subst hpath
      exact {
        toMarked := (h.toMarked.congr rfl).enter hw (by simp)
        looked := ⟨by simp, trivial⟩
        rooted := by
          intro other ho
          by_cases hne : other = root
          · subst hne
            simp [Search.enter, getElem?_set_of_getElem? .gray hw] at ho
          · have hold : colors[other]? = some .white := by
              simpa [Search.enter, getElem?_set_of_ne .gray hne] using ho
            exact (List.mem_cons.mp (h.rooted other hold)).resolve_left hne }
  | @passRoot root roots colors path hw =>
      exact {
        toMarked := h.toMarked.congr rfl
        looked := trivial
        rooted := by
          intro other ho
          refine (List.mem_cons.mp (h.rooted other ho)).resolve_left ?_
          rintro rfl
          exact hw ho }
  | @leave roots colors path node position below hn =>
      have hall : (row successors node).take position = row successors node :=
        List.take_of_length_le (List.getElem?_eq_none_iff.mp hn)
      have hsucc : ∀ next, Adjacent successors node next → colors[next]? = some .black := by
        intro next hnext
        have hold := h.looked.1 next (by rw [hall]; exact hnext)
        exact hold.resolve_right (by simp)
      have hhead : path.head? = some node := by
        have hp : path = node :: below.map Prod.fst := h.path_eq
        rw [hp, List.head?_cons]
      have hgray : colors[node]? = some .gray :=
        (h.gray_iff node).mpr (List.mem_of_mem_head? hhead)
      exact {
        toMarked := h.toMarked.leave hhead hsucc
        looked := by
          refine Looked.mono (fun other hb => ?_) (fun other hother => ?_) h.looked.2
          · by_cases ho : other = node
            · subst ho
              exact getElem?_set_of_getElem? .black hgray
            · exact (getElem?_set_of_ne .black ho).trans hb
          · rw [List.mem_singleton] at hother
            subst hother
            exact .inl (getElem?_set_of_getElem? .black hgray)
        rooted := by
          intro other ho
          by_cases hne : other = node
          · subst hne
            simp [Search.leave, getElem?_set_of_getElem? .black hgray] at ho
          · exact h.rooted other (by simpa [Search.leave, getElem?_set_of_ne .black hne] using ho) }
  | @enter roots colors path node position next below hn hw =>
      have hhead : ∀ older ∈ path.head?, Adjacent successors older next := by
        have hp : path = node :: below.map Prod.fst := h.path_eq
        rw [hp]
        rintro older ⟨⟩
        exact adjacent_of_getElem? hn
      have hmarked : Marked successors ⟨roots, colors, path, (node, position + 1) :: below⟩ :=
        h.toMarked.congr rfl
      exact {
        toMarked := hmarked.enter hw hhead
        looked := by
          have hold : Looked successors (colors.set next .gray) [next]
              ((node, position) :: below) :=
            Looked.mono (fun _ => (black_set_gray_iff hw).mpr) (by simp) h.looked
          exact ⟨by simp, hold.advance hn (.inr (by simp))⟩
        rooted := by
          intro other ho
          by_cases hne : other = next
          · subst hne
            simp [Search.enter, getElem?_set_of_getElem? .gray hw] at ho
          · exact h.rooted other (by simpa [Search.enter, getElem?_set_of_ne .gray hne] using ho) }
  | @pass roots colors path node position next below hn hw hg =>
      have hblack := black_of_ne h.toMarked (hlt node next (adjacent_of_getElem? hn)) hw hg
      exact {
        toMarked := h.toMarked.congr rfl
        looked := h.looked.advance hn (.inl hblack)
        rooted := h.rooted }

/-! ## What every step uses up -/

/-- The successors that a task of a color has still to offer when it is entered. -/
def weight (color : Color) (successors : List Nat) : Nat :=
  if color = .white then successors.length else 0

/-- The successors of all tasks that have not been seen. -/
def untouched : List (List Nat) → List Color → Nat
  | row :: rows, color :: colors => weight color row + untouched rows colors
  | _, _ => 0

/-- The successors that have still to be looked at. -/
def unread (successors : List (List Nat)) (search : Search) : Nat :=
  untouched successors search.colors +
    (search.stack.map fun (node, position) => (row successors node).length - position).sum

/-- The tasks that have not been done with. -/
def pending (search : Search) : Nat := search.colors.countP (· != .black)

/-- A bound on the steps that are left. -/
def remaining (successors : List (List Nat)) (search : Search) : Nat :=
  search.roots.length + (unread successors search + search.pending)

theorem untouched_set {rows : List (List Nat)} {colors : List Color}
    (hlen : colors.length = rows.length) {node : Nat} {old : Color}
    (h : colors[node]? = some old) (color : Color) :
    untouched rows (colors.set node color) + weight old (row rows node) =
      untouched rows colors + weight color (row rows node) := by
  induction rows generalizing colors node with
  | nil =>
      rw [List.length_nil, List.length_eq_zero_iff] at hlen
      subst hlen
      cases h
  | cons head rows ih =>
      cases colors with
      | nil => cases h
      | cons first colors =>
          cases node with
          | zero =>
              have hold : first = old := by simpa using h
              simp only [List.set_cons_zero, untouched, row, List.getElem?_cons_zero,
                Option.getD_some, hold]
              omega
          | succ node =>
              have hrest := ih (by simpa using hlen) (by simpa using h)
              simp only [row] at hrest
              simp only [List.set_cons_succ, untouched, row, List.getElem?_cons_succ]
              omega

/-- Entering a task moves its successors from the untouched ones to those of the way. -/
theorem unread_enter (search : Search) {node : Nat}
    (hlen : search.colors.length = successors.length)
    (hw : search.colors[node]? = some .white) :
    unread successors (search.enter node) = unread successors search := by
  have hset := untouched_set hlen hw .gray
  simp only [weight, if_true, if_neg (show Color.gray ≠ .white by decide)] at hset
  simp only [unread, enter, List.map_cons, List.sum_cons]
  omega

theorem pending_set (search : Search) {node : Nat} {old : Color}
    (h : search.colors[node]? = some old) (hold : old ≠ .black) (color : Color) :
    (search.colors.set node color).countP (· != .black) + 1 =
      search.pending + if color = .black then 0 else 1 := by
  obtain ⟨hlt, hget⟩ := List.getElem?_eq_some_iff.mp h
  have hpos : 0 < search.colors.countP (· != .black) :=
    List.countP_pos_iff.mpr ⟨old, List.mem_of_getElem? h, bne_iff_ne.mpr hold⟩
  rw [List.countP_set hlt, hget]
  have hb : (old != .black) = true := bne_iff_ne.mpr hold
  rw [if_pos hb, pending]
  by_cases hc : color = .black
  · simp only [hc, bne_self_eq_false, Bool.false_eq_true, if_false, if_true]
    omega
  · simp only [bne_iff_ne.mpr hc, hc, if_false, if_true]
    omega

theorem pending_enter (search : Search) {node : Nat}
    (hw : search.colors[node]? = some .white) :
    (search.enter node).pending = search.pending := by
  have hset := pending_set search hw (by decide) .gray
  rw [if_neg (by decide)] at hset
  exact Nat.add_right_cancel hset

/-- Every step that goes on uses up a root, a successor or a task. -/
theorem remaining_step {search next : Search} (h : Invariant successors search)
    (hstep : Step successors search (.running next)) :
    remaining successors next < remaining successors search := by
  cases hstep with
  | @enterRoot root roots colors path hw =>
      have hunread := unread_enter ⟨roots, colors, path, []⟩ h.length_colors hw
      have hpending := pending_enter ⟨roots, colors, path, []⟩ hw
      rw [remaining, hunread, hpending]
      simp [remaining, unread, pending, enter]
  | @passRoot root roots colors path hw =>
      simp [remaining, unread, pending]
  | @leave roots colors path node position below hn =>
      have hlen : (row successors node).length ≤ position := List.getElem?_eq_none_iff.mp hn
      have hgray : colors[node]? = some .gray := by
        refine (h.gray_iff node).mpr ?_
        have hp : path = node :: below.map Prod.fst := h.path_eq
        simp [hp]
      have hset := untouched_set h.length_colors hgray .black
      have hpending :=
        pending_set ⟨roots, colors, path, (node, position) :: below⟩ hgray (by decide) .black
      simp only [weight, if_neg (show Color.gray ≠ .white by decide),
        if_neg (show Color.black ≠ .white by decide)] at hset
      simp only [remaining, unread, pending, leave, List.tail_cons, List.map_cons, List.sum_cons]
        at hpending ⊢
      simp only [if_true] at hpending
      omega
  | @enter roots colors path node position next below hn hw =>
      obtain ⟨hlt, -⟩ := List.getElem?_eq_some_iff.mp hn
      let looked : Search := ⟨roots, colors, path, (node, position + 1) :: below⟩
      have hunread := unread_enter looked h.length_colors hw
      have hpending := pending_enter looked hw
      rw [remaining, hunread, hpending]
      simp only [remaining, looked, enter, unread, pending, List.map_cons, List.sum_cons]
      omega
  | @pass roots colors path node position next below hn hw hg =>
      obtain ⟨hlt, -⟩ := List.getElem?_eq_some_iff.mp hn
      simp only [remaining, unread, pending, List.map_cons, List.sum_cons]
      omega

/-! ## Where a search ends -/

/-- An ending with its evidence: a cycle, or that there is none. -/
def Progress.Settles (successors : List (List Nat)) : Progress → Prop
  | .running _ => False
  | .closed cycle => IsCycle (Adjacent successors) cycle
  | .finished => Acyclic (Adjacent successors)

theorem cycleFrom_eq {path before after : List Nat} {node : Nat}
    (h : path.reverse = before ++ node :: after) (hn : node ∉ before) :
    cycleFrom path node = node :: after ++ [node] := by
  have hidx : (before ++ node :: after).idxOf? node = some before.length := by
    rw [List.idxOf?_eq_some_iff]
    refine ⟨by simp, by simp, fun i hi => ?_⟩
    rw [List.getElem_append_left hi]
    rintro rfl
    exact hn (List.getElem_mem hi)
  simp only [cycleFrom, h, hidx, Option.getD_some, List.drop_left]

/-- A dependency on a task of the way closes a cycle. -/
theorem isCycle_cycleFrom {search : Search} (h : Marked successors search) {node next : Nat}
    (hhead : search.path.head? = some node) (hadj : Adjacent successors node next)
    (hmem : next ∈ search.path) :
    IsCycle (Adjacent successors) (cycleFrom search.path next) := by
  obtain ⟨before, after, hsplit, hnot⟩ :=
    List.eq_append_cons_of_mem (List.mem_reverse.mpr hmem)
  have hway : search.path.reverse.IsChain (Adjacent successors) :=
    List.isChain_reverse.mpr h.chain
  have hnodup : search.path.reverse.Nodup := List.nodup_reverse.mpr h.nodup
  have hsuffix : next :: after <:+ search.path.reverse := ⟨before, hsplit.symm⟩
  have hlast : (next :: after).getLast? = some node := by
    rw [← hhead, ← List.getLast?_reverse, hsplit, List.getLast?_append_of_ne_nil _ (by simp)]
  rw [cycleFrom_eq hsplit hnot]
  exact {
    two_le_length := by simp
    closed := by rw [List.getLast?_concat, List.cons_append, List.head?_cons]
    distinct := by
      rw [List.dropLast_concat]
      exact hnodup.sublist hsuffix.sublist
    chain := by
      refine (hway.suffix hsuffix).append (List.IsChain.singleton next) ?_
      intro last hl first hf
      rw [hlast, Option.mem_some_iff] at hl
      rw [List.head?_cons, Option.mem_some_iff] at hf
      subst hl hf
      exact hadj }

/-- Once everything is black there is no cycle. -/
theorem acyclic_of_finished {colors : List Color} {path : List Nat}
    (h : Invariant successors ⟨[], colors, path, []⟩) : Acyclic (Adjacent successors) := by
  intro node hcycle
  obtain ⟨next, hnext, -⟩ := Relation.TransGen.head'_iff.mp hcycle
  have hpath : path = [] := h.path_eq
  have hw : colors[node]? ≠ some .white := by
    intro hw
    simpa using h.rooted node hw
  have hg : colors[node]? ≠ some .gray := by
    intro hg
    simpa [hpath] using (h.gray_iff node).mp hg
  exact h.black_acyclic node (black_of_ne h.toMarked hnext.lt_length hw hg) hcycle

theorem settles_of_step {search : Search} {progress : Progress}
    (h : Invariant successors search) (hstep : Step successors search progress)
    (hend : ∀ next, progress ≠ .running next) : progress.Settles successors := by
  cases hstep with
  | finish => exact acyclic_of_finished h
  | @close roots colors path node position next below hn hg =>
      have hp : path = node :: below.map Prod.fst := h.path_eq
      exact isCycle_cycleFrom h.toMarked (by simp [hp]) (adjacent_of_getElem? hn)
        ((h.gray_iff next).mp hg)
  | enterRoot | passRoot | leave | enter | pass => exact absurd rfl (hend _)

/-- A search that has enough steps left ends. -/
theorem settles_run (hlt : ∀ node other, Adjacent successors node other →
      other < successors.length) {fuel : Nat} {search : Search}
    (h : Invariant successors search) (hfuel : remaining successors search < fuel) :
    (run successors fuel search).Settles successors := by
  induction fuel generalizing search with
  | zero => omega
  | succ fuel ih =>
      have hstep := step_step successors search
      simp only [run]
      cases hp : search.step successors with
      | running next =>
          rw [hp] at hstep
          have hless := remaining_step h hstep
          exact ih (invariant_step hlt h hstep) (by omega)
      | closed cycle =>
          rw [hp] at hstep
          exact settles_of_step h hstep (by simp)
      | finished =>
          rw [hp] at hstep
          exact settles_of_step h hstep (by simp)

theorem remaining_start (successors : List (List Nat)) :
    remaining successors (start successors.length) =
      2 * successors.length + successors.flatten.length := by
  have huntouched : ∀ rows : List (List Nat),
      untouched rows (List.replicate rows.length .white) = rows.flatten.length := by
    intro rows
    induction rows with
    | nil => rfl
    | cons row rows ih =>
        rw [List.length_cons, List.replicate_succ, untouched, ih]
        simp [weight]
  simp only [remaining, unread, pending, start, huntouched, List.length_range,
    List.countP_replicate, List.map_nil, List.sum_nil, Nat.add_zero]
  rw [if_pos (by decide)]
  omega

end CiPipeline.TaskGraph.Search
