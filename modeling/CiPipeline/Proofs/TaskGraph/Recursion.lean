import CiPipeline.Proofs.TaskGraph.Cycle
import Mathlib.Logic.Function.Basic

/-!
# The search by recursion

The search for a cycle as a recursion over names, which keeps neither a stack nor places: it goes
from a task to everything that the task declares, and comes back when it is done with that. Main
statement: the search with a stack reports what the recursion reports.
-/

namespace CiPipeline.TaskGraph

/-- A color for each name. -/
abbrev Marks := String → Color

/-- How many tasks have not been seen. -/
def unseen (g : TaskGraph) (marks : Marks) : Nat := g.names.countP (marks · = .white)

variable {g : TaskGraph} {marks : Marks} {task : String} {color : Color}

/-- No task gets unseen again. -/
theorem countP_update_le (marks : Marks) (task : String) (hcolor : color ≠ .white)
    (names : List String) :
    names.countP (Function.update marks task color · = .white) ≤
      names.countP (marks · = .white) := by
  refine List.countP_mono_left fun name _ hwhite => ?_
  by_cases hsame : name = task
  · subst hsame
    simp [hcolor] at hwhite
  · simpa [hsame] using hwhite

theorem unseen_update_le (hcolor : color ≠ .white) :
    g.unseen (Function.update marks task color) ≤ g.unseen marks :=
  countP_update_le marks task hcolor g.names

theorem unseen_update_lt (hknown : task ∈ g.names) (hwhite : marks task = .white)
    (hcolor : color ≠ .white) :
    g.unseen (Function.update marks task color) < g.unseen marks := by
  obtain ⟨before, after, hsplit⟩ := List.append_of_mem hknown
  have hbefore := countP_update_le marks task hcolor before
  have hafter := countP_update_le marks task hcolor after
  simp only [unseen, hsplit, List.countP_append, List.countP_cons, Function.update_self, hwhite,
    hcolor, decide_false, decide_true, if_true, Bool.false_eq_true, if_false]
  omega

/-- Marks under which no more tasks are unseen. -/
abbrev Later (g : TaskGraph) (marks : Marks) := { later : Marks // g.unseen later ≤ g.unseen marks }

/-- The names that a task declares to depend on, registered or not. -/
def declaredBy (g : TaskGraph) (task : String) : List String :=
  ((g.find? task).map Node.dependencies).getD []

mutual

/-- Goes on to a task that has not been seen, and is done with it after everything that it depends
on. -/
def explore (g : TaskGraph) (marks : Marks) (way : List String) (task : String)
    (hnew : task ∈ g.names ∧ marks task = .white) : Except (List String) (g.Later marks) := do
  let later ← g.exploreAll (Function.update marks task .gray) (way ++ [task]) (g.declaredBy task)
  return ⟨Function.update later.1 task .black, (unseen_update_le (by decide)).trans
    (later.2.trans (unseen_update_lt hnew.1 hnew.2 (by decide)).le)⟩
termination_by (g.unseen marks, 0)
decreasing_by exact Prod.Lex.left _ _ (unseen_update_lt hnew.1 hnew.2 (by decide))

/-- Looks at dependencies one after the other. The first one on the way closes a cycle: the way from
that task on, and the task again. -/
def exploreAll (g : TaskGraph) (marks : Marks) (way : List String) :
    List String → Except (List String) (g.Later marks)
  | [] => .ok ⟨marks, Nat.le_refl _⟩
  | next :: rest =>
      if hknown : next ∈ g.names then
        match hcolor : marks next with
        | .gray => .error (way.dropWhile (· != next) ++ [next])
        | .black => g.exploreAll marks way rest
        | .white => do
            let later ← g.explore marks way next ⟨hknown, hcolor⟩
            let last ← g.exploreAll later.1 way rest
            return ⟨last.1, last.2.trans later.2⟩
      else g.exploreAll marks way rest
termination_by dependencies => (g.unseen marks, dependencies.length)
decreasing_by
  · exact Prod.Lex.right _ (by simp)
  · exact Prod.Lex.right _ (by simp)
  · rcases Nat.lt_or_eq_of_le later.2 with hless | hsame
    · exact Prod.Lex.left _ _ hless
    · rw [hsame]
      exact Prod.Lex.right _ (by simp)
  · exact Prod.Lex.right _ (by simp)

end

/-- Starts from each root that has not been seen on the way from an earlier one. -/
def exploreRoots (g : TaskGraph) (marks : Marks) : List String → Except (List String) Marks
  | [] => .ok marks
  | root :: rest =>
      if hnew : root ∈ g.names ∧ marks root = .white then do
        let later ← g.explore marks [] root hnew
        g.exploreRoots later.1 rest
      else g.exploreRoots marks rest

/-- The cycle that the recursion finds first, with the tasks as roots in order of registration. -/
def recursiveCycle (g : TaskGraph) : Option (List String) :=
  match g.exploreRoots (fun _ => .white) g.names with
  | .error cycle => some cycle
  | .ok _ => none

/-! ## What the recursion does in each case -/

section Equations

variable {way rest : List String} {next : String}

theorem explore_eq (hnew : task ∈ g.names ∧ marks task = .white) :
    (g.explore marks way task hnew).map Subtype.val =
      (g.exploreAll (Function.update marks task .gray) (way ++ [task]) (g.declaredBy task)).bind
        fun later => .ok (Function.update later.1 task .black) := by
  rw [explore]
  cases g.exploreAll (Function.update marks task .gray) (way ++ [task]) (g.declaredBy task) with
  | error cycle => rfl
  | ok later => rfl

theorem exploreAll_nil : g.exploreAll marks way [] = .ok ⟨marks, Nat.le_refl _⟩ := by
  rw [exploreAll]

theorem exploreAll_of_unknown (hunknown : next ∉ g.names) :
    g.exploreAll marks way (next :: rest) = g.exploreAll marks way rest := by
  rw [exploreAll, dif_neg hunknown]

theorem exploreAll_of_gray (hknown : next ∈ g.names) (hgray : marks next = .gray) :
    g.exploreAll marks way (next :: rest) =
      .error (way.dropWhile (· != next) ++ [next]) := by
  rw [exploreAll, dif_pos hknown]
  split
  · rfl
  · simp_all
  · simp_all

theorem exploreAll_of_black (hknown : next ∈ g.names) (hblack : marks next = .black) :
    g.exploreAll marks way (next :: rest) = g.exploreAll marks way rest := by
  rw [exploreAll, dif_pos hknown]
  split
  · simp_all
  · rfl
  · simp_all

theorem exploreAll_of_white (hknown : next ∈ g.names) (hwhite : marks next = .white) :
    (g.exploreAll marks way (next :: rest)).map Subtype.val =
      (g.explore marks way next ⟨hknown, hwhite⟩).bind fun later =>
        (g.exploreAll later.1 way rest).map Subtype.val := by
  rw [exploreAll, dif_pos hknown]
  split
  · simp_all
  · simp_all
  · cases g.explore marks way next ⟨hknown, hwhite⟩ with
    | error cycle => rfl
    | ok later =>
        cases hlast : g.exploreAll later.1 way rest with
        | error cycle => simp [bind, Except.bind, Except.map, hlast]
        | ok last => simp [bind, Except.bind, Except.map, pure, Except.pure, hlast]

end Equations

/-! ## Searches with a stack -/

namespace Search

variable {successors : List (List Nat)} {search next last : Search}

/-- Steps lead from one search to another one. -/
def Leads (successors : List (List Nat)) (search next : Search) : Prop :=
  Relation.ReflTransGen (fun search next => search.step successors = .running next) search next

theorem leads_of_step (h : search.step successors = .running next) :
    Leads successors search next := Relation.ReflTransGen.single h

theorem Leads.invariant {g : TaskGraph} (hg : g.places.Numbers g.names)
    (h : Leads g.successors search next) (hsearch : Invariant g.successors search) :
    Invariant g.successors next := by
  have hlt : ∀ node other, Adjacent g.successors node other → other < g.successors.length := by
    intro node other hadjacent
    rw [length_successors]
    exact hadjacent.next_lt_length hg
  induction h with
  | refl => exact hsearch
  | @tail search next _ hstep ih =>
      have hcases := step_step g.successors search
      rw [hstep] at hcases
      exact invariant_step hlt ih hcases

/-- A run that ends, ends as the search does that it leads to. -/
theorem Leads.run_eq {progress : Progress} (h : Leads successors search last)
    (hlast : last.step successors = progress) (hstops : ∀ next, progress ≠ .running next)
    {fuel : Nat} (hends : ∀ next, run successors fuel search ≠ .running next) :
    run successors fuel search = progress := by
  induction h using Relation.ReflTransGen.head_induction_on generalizing fuel with
  | refl =>
      cases fuel with
      | zero => exact absurd rfl (hends last)
      | succ fuel =>
          cases progress with
          | running next => exact absurd rfl (hstops next)
          | closed cycle => simp only [run, hlast]
          | finished => simp only [run, hlast]
  | @head search next hstep _ ih =>
      cases fuel with
      | zero => exact absurd rfl (hends search)
      | succ fuel =>
          simp only [run, hstep] at hends ⊢
          exact ih hends

end Search

/-! ## The recursion, step by step -/

/-- Each place has the color of the name there. -/
def Colored (g : TaskGraph) (colors : List Color) (marks : Marks) : Prop :=
  ∀ (place : Nat) (name : String), g.names[place]? = some name →
    colors[place]? = some (marks name)

/-- A search comes to what the recursion reports: to the same cycle, or, with colors that are the
later marks, to where it is to come back. -/
def Reports (g : TaskGraph) (search : Search) (back : List Color → Search) :
    Except (List String) Marks → Prop
  | .error cycle => ∃ last places, Search.Leads g.successors search last ∧
      last.step g.successors = .closed places ∧ places.map g.nameAt = cycle
  | .ok marks => ∃ colors, Search.Leads g.successors search (back colors) ∧ g.Colored colors marks

/-- A search does what the recursion does with a task that it has just entered, and then goes on
with what stood on the stack before. -/
def Follows (g : TaskGraph) (marks : Marks) : Prop :=
  ∀ (task : String) (hnew : task ∈ g.names ∧ marks task = .white) (roots : List Nat)
    (colors : List Color) (path : List Nat) (stack : List (Nat × Nat)) (place : Nat),
    g.names[place]? = some task →
    Search.Invariant g.successors (Search.enter ⟨roots, colors, path, stack⟩ place) →
    g.Colored colors marks →
    g.Reports (Search.enter ⟨roots, colors, path, stack⟩ place)
      (fun colors => ⟨roots, colors, path, stack⟩)
      ((g.explore marks (path.reverse.map g.nameAt) task hnew).map Subtype.val)

/-- A search does what the recursion does with the dependencies of the newest task that it has not
looked at, and then leaves the task. -/
def FollowsAll (g : TaskGraph) (marks : Marks) : Prop :=
  ∀ (dependencies : List String) (roots : List Nat) (colors : List Color) (path : List Nat)
    (node position : Nat) (below : List (Nat × Nat)),
    Search.Invariant g.successors ⟨roots, colors, path, (node, position) :: below⟩ →
    g.Colored colors marks →
    (Search.row g.successors node).drop position = dependencies.filterMap g.index? →
    g.Reports ⟨roots, colors, path, (node, position) :: below⟩
      (fun colors => ⟨roots, colors.set node .black, path.tail, below⟩)
      ((g.exploreAll marks (path.reverse.map g.nameAt) dependencies).map Subtype.val)

variable {colors : List Color} {place : Nat}

theorem Reports.after {search next : Search} {back : List Color → Search}
    {result : Except (List String) Marks} (h : g.Reports next back result)
    (hleads : Search.Leads g.successors search next) : g.Reports search back result := by
  cases result with
  | error cycle =>
      obtain ⟨last, places, hlast, hclosed⟩ := h
      exact ⟨last, places, hleads.trans hlast, hclosed⟩
  | ok marks =>
      obtain ⟨colors, hback, hcolored⟩ := h
      exact ⟨colors, hleads.trans hback, hcolored⟩

/-- Where the search has come back it goes on, as the recursion does with the later marks. -/
theorem Reports.bind {search : Search} {back after : List Color → Search}
    {result : Except (List String) (g.Later marks)}
    {more : g.Later marks → Except (List String) Marks}
    (h : g.Reports search back (result.map Subtype.val))
    (hmore : ∀ later colors, Search.Leads g.successors search (back colors) →
      g.Colored colors later.1 → g.Reports (back colors) after (more later)) :
    g.Reports search after (result.bind more) := by
  cases result with
  | error cycle => exact h
  | ok later =>
      obtain ⟨colors, hback, hcolored⟩ := h
      exact (hmore later colors hback hcolored).after hback

theorem Colored.set (h : g.Colored colors marks) (hg : g.places.Numbers g.names)
    (hplace : g.names[place]? = some task) (color : Color) :
    g.Colored (colors.set place color) (Function.update marks task color) := by
  intro other name hother
  by_cases hsame : other = place
  · subst hsame
    obtain rfl : name = task := Option.some.inj (hother.symm.trans hplace)
    rw [Function.update_self]
    exact Search.getElem?_set_of_getElem? color (h other name hother)
  · have hne : name ≠ task := by
      rintro rfl
      exact hsame (hg.place_eq hother hplace)
    rw [Function.update_of_ne hne, Search.getElem?_set_of_ne color hsame]
    exact h other name hother

theorem row_successors (hg : g.places.Numbers g.names) (hplace : g.names[place]? = some task) :
    Search.row g.successors place = (g.declaredBy task).filterMap g.index? := by
  have hindex : g.index? task = some place := hg.get?_eq_some_iff.mpr hplace
  rw [names, List.getElem?_map, Option.map_eq_some_iff] at hplace
  obtain ⟨node, hnode, -⟩ := hplace
  simp [Search.row, successors, declaredBy, find?, hindex, hnode]

theorem follows_of_smaller (hg : g.places.Numbers g.names)
    (h : ∀ later, g.unseen later < g.unseen marks → g.FollowsAll later) : g.Follows marks := by
  intro task hnew roots colors path stack place hplace hinvariant hcolored
  have hinner := h _ (unseen_update_lt hnew.1 hnew.2 (by decide)) (g.declaredBy task) roots
    (colors.set place .gray) (place :: path) place 0 stack hinvariant (hcolored.set hg hplace .gray)
    (row_successors hg hplace)
  have hway : (place :: path).reverse.map g.nameAt = path.reverse.map g.nameAt ++ [task] := by
    simp [nameAt_eq hplace]
  rw [hway] at hinner
  rw [explore_eq]
  exact hinner.bind fun later colors' _ hcolored' =>
    ⟨colors'.set place .black, .refl, hcolored'.set hg hplace .black⟩

/-- The names along a cycle of the search are those of the recursion: the way from the task on that
is come to again. -/
theorem map_cycleFrom (hg : g.places.Numbers g.names) {path : List Nat}
    (hpath : ∀ other ∈ path, other < g.size) (hplace : g.names[place]? = some task)
    (hmem : place ∈ path) :
    (Search.cycleFrom path place).map g.nameAt =
      (path.reverse.map g.nameAt).dropWhile (· != task) ++ [task] := by
  obtain ⟨before, after, hsplit, hnot⟩ := List.eq_append_cons_of_mem (List.mem_reverse.mpr hmem)
  have hway : path.reverse.map g.nameAt = before.map g.nameAt ++ task :: after.map g.nameAt := by
    rw [hsplit, List.map_append, List.map_cons, nameAt_eq hplace]
  have hbefore : ∀ name ∈ before.map g.nameAt, (name != task) = true := by
    intro name hname
    obtain ⟨other, hother, rfl⟩ := List.mem_map.mp hname
    have hon : other ∈ path := by
      rw [← List.mem_reverse, hsplit]
      exact List.mem_append_left _ hother
    rw [bne_iff_ne]
    intro hsame
    have hname := getElem?_names (hpath other hon)
    rw [hsame] at hname
    obtain rfl := hg.place_eq hname hplace
    exact hnot hother
  rw [Search.cycleFrom_eq hsplit hnot, hway, List.dropWhile_append_of_pos hbefore]
  simp [nameAt_eq hplace]

/-- A search that comes to a task on the way reports the way from that task on. -/
theorem reports_of_gray (hg : g.places.Numbers g.names) {roots path : List Nat}
    {node position : Nat} {below : List (Nat × Nat)}
    (hinvariant : Search.Invariant g.successors ⟨roots, colors, path, (node, position) :: below⟩)
    (hplace : g.names[place]? = some task)
    (hn : (Search.row g.successors node)[position]? = some place)
    (hgray : colors[place]? = some .gray) (back : List Color → Search) :
    g.Reports ⟨roots, colors, path, (node, position) :: below⟩ back
      (.error ((path.reverse.map g.nameAt).dropWhile (· != task) ++ [task])) := by
  have hmem : place ∈ path := (hinvariant.gray_iff place).mp hgray
  have hpath : ∀ other ∈ path, other < g.size := by
    intro other hother
    rw [← length_successors]
    exact hinvariant.lt_of_mem_path hother
  exact ⟨_, _, .refl, Search.step_close roots path below hn hgray,
    map_cycleFrom hg hpath hplace hmem⟩

/-- The dependency at a position, and those after it. -/
theorem next_of_drop {row rest : List Nat} {position next : Nat}
    (h : row.drop position = next :: rest) :
    row[position]? = some next ∧ row.drop (position + 1) = rest := by
  constructor
  · rw [← List.head?_drop, h, List.head?_cons]
  · rw [← List.tail_drop, h, List.tail_cons]

theorem followsAll_of_follows (hg : g.places.Numbers g.names)
    (h : ∀ later, g.unseen later ≤ g.unseen marks → g.Follows later) : g.FollowsAll marks := by
  intro dependencies
  induction dependencies generalizing marks with
  | nil =>
      intro roots colors path node position below _ hcolored hdrop
      have hn : (Search.row g.successors node)[position]? = none := by
        rw [List.getElem?_eq_none_iff]
        exact List.drop_eq_nil_iff.mp hdrop
      rw [exploreAll_nil]
      exact ⟨colors, Search.leads_of_step (Search.step_leave roots path below hn), hcolored⟩
  | cons next rest ih =>
      intro roots colors path node position below hinvariant hcolored hdrop
      by_cases hknown : next ∈ g.names
      · obtain ⟨place, hplace⟩ := List.getElem?_of_mem hknown
        have hindex : g.index? next = some place := hg.get?_eq_some_iff.mpr hplace
        rw [List.filterMap_cons_some hindex] at hdrop
        obtain ⟨hn, hrest⟩ := next_of_drop hdrop
        have hcolor := hcolored place next hplace
        cases hmark : marks next with
        | gray =>
            rw [hmark] at hcolor
            rw [exploreAll_of_gray hknown hmark]
            exact reports_of_gray hg hinvariant hplace hn hcolor _
        | black =>
            rw [hmark] at hcolor
            have hpass : colors[place]? ≠ some .white ∧ colors[place]? ≠ some .gray := by
              simp [hcolor]
            have hleads := Search.leads_of_step
              (Search.step_pass roots path below hn hpass.1 hpass.2)
            rw [exploreAll_of_black hknown hmark]
            exact (ih h roots colors path node (position + 1) below (hleads.invariant hg hinvariant)
              hcolored hrest).after hleads
        | white =>
            rw [hmark] at hcolor
            have hleads := Search.leads_of_step (Search.step_enter roots path below hn hcolor)
            have hentered := hleads.invariant hg hinvariant
            have hinner := h marks (Nat.le_refl _) next ⟨hknown, hmark⟩ roots colors path
              ((node, position + 1) :: below) place hplace hentered hcolored
            rw [exploreAll_of_white hknown hmark]
            refine (hinner.bind fun later colors' hback hcolored' => ?_).after hleads
            exact ih (fun last hlast => h last (hlast.trans later.2)) roots colors' path node
              (position + 1) below (hback.invariant hg hentered) hcolored' hrest
      · have hindex : g.index? next = none := hg.get?_eq_none_iff.mpr hknown
        rw [List.filterMap_cons_none hindex] at hdrop
        rw [exploreAll_of_unknown hknown]
        exact ih h roots colors path node position below hinvariant hcolored hdrop

theorem exploreAll_follows (hg : g.places.Numbers g.names) (marks : Marks) :
    g.FollowsAll marks := by
  induction hcount : g.unseen marks using Nat.strongRecOn generalizing marks with
  | _ count ih =>
      refine followsAll_of_follows hg fun later hlater => follows_of_smaller hg fun last hlast => ?_
      exact ih (g.unseen last) (by omega) last rfl

theorem explore_follows (hg : g.places.Numbers g.names) (marks : Marks) : g.Follows marks :=
  follows_of_smaller hg fun later _ => exploreAll_follows hg later

/-! ## The whole search -/

theorem reports_exploreRoots (hg : g.places.Numbers g.names) {roots : List Nat}
    (hroots : ∀ root ∈ roots, root < g.size)
    (hinvariant : Search.Invariant g.successors ⟨roots, colors, [], []⟩)
    (hcolored : g.Colored colors marks) :
    g.Reports ⟨roots, colors, [], []⟩ (fun colors => ⟨[], colors, [], []⟩)
      (g.exploreRoots marks (roots.map g.nameAt)) := by
  induction roots generalizing colors marks with
  | nil => exact ⟨colors, .refl, hcolored⟩
  | cons root rest ih =>
      have hplace := getElem?_names (hroots root List.mem_cons_self)
      have hrest : ∀ other ∈ rest, other < g.size :=
        fun other hother => hroots other (List.mem_cons_of_mem _ hother)
      have hcolor := hcolored root _ hplace
      have hknown : g.nameAt root ∈ g.names := List.mem_of_getElem? hplace
      rw [List.map_cons, exploreRoots]
      by_cases hwhite : marks (g.nameAt root) = .white
      · rw [hwhite] at hcolor
        have hleads := Search.leads_of_step (Search.step_enterRoot rest [] g.successors hcolor)
        have hentered := hleads.invariant hg hinvariant
        have hinner := explore_follows hg marks (g.nameAt root) ⟨hknown, hwhite⟩ rest colors [] []
          root hplace hentered hcolored
        rw [dif_pos ⟨hknown, hwhite⟩]
        refine Reports.after (hinner.bind fun later colors' hback hcolored' => ?_) hleads
        exact ih hrest (hback.invariant hg hentered) hcolored'
      · have hpass : colors[root]? ≠ some .white := by
          rw [hcolor]
          simpa using hwhite
        have hleads := Search.leads_of_step (Search.step_passRoot rest [] g.successors hpass)
        rw [dif_neg (fun hnew => hwhite hnew.2)]
        exact (ih hrest (hleads.invariant hg hinvariant) hcolored).after hleads

theorem colored_start (g : TaskGraph) :
    g.Colored (List.replicate g.size .white) fun _ => .white := by
  intro place name hname
  obtain ⟨hlt, -⟩ := List.getElem?_eq_some_iff.mp hname
  have hplace : place < g.size := by simpa [names, size] using hlt
  rw [List.getElem?_replicate, if_pos hplace]

/-- The search with a stack reports the cycle that the recursion over names reports, and nothing if
the recursion finds none. -/
theorem findCycle_eq_recursiveCycle (h : g.Reachable) : g.findCycle = g.recursiveCycle := by
  have hends := search_ne_running h.numbers
  have hreports := reports_exploreRoots h.numbers (fun _ => List.mem_range.mp)
    (invariant_start_size g) (colored_start g)
  rw [map_nameAt_range] at hreports
  unfold findCycle recursiveCycle
  cases hresult : g.exploreRoots (fun _ => .white) g.names with
  | error cycle =>
      rw [hresult] at hreports
      obtain ⟨last, places, hleads, hclosed, rfl⟩ := hreports
      have hsearch : g.search = .closed places := hleads.run_eq hclosed (by simp) hends
      rw [hsearch]
  | ok marks =>
      rw [hresult] at hreports
      obtain ⟨colors, hleads, -⟩ := hreports
      have hlast : Search.step g.successors ⟨[], colors, [], []⟩ = .finished := rfl
      have hsearch : g.search = .finished := hleads.run_eq hlast (by simp) hends
      rw [hsearch]

/-- A ring that is entered from outside, beside a diamond and an unknown name. -/
theorem recursiveCycle_of_entered_ring :
    let g := ofList [("x", ["y", "z"]), ("y", ["z"]), ("z", ["ghost", "a"]), ("a", ["b", "x"]),
      ("b", ["a"])]
    g.Reachable ∧ g.findCycle = some ["a", "b", "a"] ∧ g.recursiveCycle = some ["a", "b", "a"] := by
  intro g
  have hg : g.Reachable := reachable_ofList _
  have hfound : g.findCycle = some ["a", "b", "a"] := by decide +kernel
  exact ⟨hg, hfound, (findCycle_eq_recursiveCycle hg).symm.trans hfound⟩

end CiPipeline.TaskGraph
