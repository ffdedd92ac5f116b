import CiPipeline.Proofs.TaskGraph.Levels

/-!
# Layers

What the groups of a sorted graph are. Every name stands in one group and once; what it depends on
stands in groups before; and a name stands no further down than it has to, for outside of the first
group it depends on a name in the group just before. Main statement: the groups of a wired graph
without cycles are such layers of its declared dependencies.
-/

namespace CiPipeline.TaskGraph

/-- Names in groups, all of them once and each group in order, where every name comes after what it
depends on and just after some of it. -/
structure Layers (names : List String) (dependsOn : String → String → Prop)
    (groups : List (List String)) : Prop where
  complete : groups.flatten.Perm names
  distinct : groups.flatten.Nodup
  ordered : ∀ group ∈ groups, group.Sublist names
  inhabited : ∀ group ∈ groups, group ≠ []
  earlier : ∀ name dependency, dependsOn name dependency → StandsBefore groups dependency name
  supported : ∀ level name, StandsIn groups (level + 1) name →
    ∃ dependency, dependsOn name dependency ∧ StandsIn groups level dependency

/-! ## What layers say of a name -/

namespace Layers

variable {names : List String} {dependsOn : String → String → Prop} {groups : List (List String)}
variable {name : String}

theorem existsUnique_standsIn (h : Layers names dependsOn groups) (hname : name ∈ names) :
    ∃! level, StandsIn groups level name := by
  obtain ⟨group, hgroup, hmem⟩ := List.mem_flatten.mp (h.complete.mem_iff.mpr hname)
  obtain ⟨level, hlevel⟩ := List.getElem?_of_mem hgroup
  have hdisjoint := List.pairwise_iff_getElem.mp (List.nodup_flatten.mp h.distinct).2
  refine ⟨level, ⟨group, hlevel, hmem⟩, ?_⟩
  intro other hother
  obtain ⟨found, hfound, hmem'⟩ := hother
  obtain ⟨hlt, rfl⟩ := List.getElem?_eq_some_iff.mp hlevel
  obtain ⟨hlt', rfl⟩ := List.getElem?_eq_some_iff.mp hfound
  by_contra hne
  rcases Nat.lt_or_gt_of_ne hne with hless | hmore
  · exact hdisjoint other level hlt' hlt hless hmem' hmem
  · exact hdisjoint level other hlt hlt' hmore hmem hmem'

/-- The level of a name is the least that numbers growing along dependencies can give it. -/
theorem level_le_rank (h : Layers names dependsOn groups) {rank : String → Nat}
    (hrank : ∀ name dependency, dependsOn name dependency → rank dependency < rank name)
    {level : Nat} (hstands : StandsIn groups level name) : level ≤ rank name := by
  induction level generalizing name with
  | zero => exact Nat.zero_le _
  | succ level ih =>
      obtain ⟨dependency, hdepends, hbefore⟩ := h.supported level name hstands
      have hlevel := ih hbefore
      have hless := hrank name dependency hdepends
      omega

end Layers

/-! ## Levels that are given to places -/

variable {g : TaskGraph} {levels : List (Option Nat)} {order : List Nat}

theorem foldl_max_mem {numbers : List Nat} {n : Nat} (h : numbers.foldl max 0 = n + 1) :
    n + 1 ∈ numbers := by
  rw [List.foldl_max] at h
  cases hmax : numbers.max? with
  | none => simp [hmax] at h
  | some most =>
      have hmost : most = n + 1 := by simpa [hmax] using h
      exact hmost ▸ List.max?_mem hmax

/-- A place that is not in the first level was put there by something in the level before. -/
theorem exists_wired_of_levelAfter {index level : Nat}
    (h : g.levelAfter levels index = level + 1) :
    ∃ dependency, g.Wired dependency index ∧ HasLevel levels dependency level := by
  obtain ⟨known, hknown, hsame⟩ := List.mem_map.mp (foldl_max_mem h)
  obtain ⟨dependency, hdependency, hfound⟩ := List.mem_filterMap.mp hknown
  refine ⟨dependency, mem_wiredDependencies.mp hdependency, ?_⟩
  rw [Option.join_eq_some_iff] at hfound
  have hlevel : known = level := by omega
  rwa [hlevel] at hfound

theorem tasksOfLevel_sublist (level : Nat) :
    (tasksOfLevel levels level).Sublist (List.range levels.length) := by
  have hplaces : levels.zipIdx.map Prod.snd = List.range levels.length := by
    rw [List.zipIdx_map_snd, List.range_eq_range']
  rw [← hplaces, tasksOfLevel]
  induction levels.zipIdx with
  | nil => exact List.Sublist.refl _
  | cons entry rest ih =>
      rw [List.filterMap_cons, List.map_cons]
      by_cases hown : entry.1 = some level
      · simpa [hown] using ih
      · simpa [hown] using ih.cons entry.2

/-! ## Places in groups -/

theorem mem_levelGroups_iff (h : g.Reachable) (horder : g.IsOrder order) {index : Nat} :
    index ∈ (g.levelGroups order).flatten ↔ index < g.size := by
  rw [List.mem_flatten]
  constructor
  · intro hmem
    obtain ⟨group, hgroup, hindex⟩ := hmem
    obtain ⟨level, hlevel⟩ := List.getElem?_of_mem hgroup
    exact ((hasLevel_levels_iff h horder).mp (mem_levelGroups.mp ⟨group, hlevel, hindex⟩)).1
  · intro hindex
    have hlevel := (hasLevel_levels_iff h horder).mpr ⟨hindex, rfl⟩
    obtain ⟨group, hgroup, hmem⟩ := mem_levelGroups.mpr hlevel
    exact ⟨group, List.mem_of_getElem? hgroup, hmem⟩

theorem nodup_levelGroups (order : List Nat) : (g.levelGroups order).flatten.Nodup := by
  rw [List.nodup_flatten]
  constructor
  · intro group hgroup
    obtain ⟨level, -, rfl⟩ := List.mem_map.mp hgroup
    exact (tasksOfLevel_sublist level).nodup List.nodup_range
  · rw [levelGroups, List.pairwise_map]
    refine List.pairwise_lt_range.imp ?_
    intro low high hless index hlow hhigh
    have hsame : some (some low) = some (some high) :=
      (mem_tasksOfLevel.mp hlow).symm.trans (mem_tasksOfLevel.mp hhigh)
    cases hsame
    exact Nat.lt_irrefl _ hless

theorem perm_levelGroups (h : g.Reachable) (horder : g.IsOrder order) :
    (g.levelGroups order).flatten.Perm (List.range g.size) := by
  rw [List.perm_ext_iff_of_nodup (nodup_levelGroups order) List.nodup_range]
  intro index
  rw [mem_levelGroups_iff h horder, List.mem_range]

/-- Below a level that is in use all levels are in use. -/
theorem exists_hasLevel_of_le (h : g.Reachable) (horder : g.IsOrder order) {index low high : Nat}
    (hhigh : HasLevel (g.levels order) index high) (hle : low ≤ high) :
    ∃ other, HasLevel (g.levels order) other low := by
  induction high generalizing index with
  | zero => exact ⟨index, by rwa [Nat.le_zero.mp hle]⟩
  | succ high ih =>
      by_cases heq : low = high + 1
      · exact ⟨index, heq ▸ hhigh⟩
      · have hlevel := ((hasLevel_levels_iff h horder).mp hhigh).2
        obtain ⟨dependency, -, hbefore⟩ := exists_wired_of_levelAfter hlevel.symm
        exact ih hbefore (by omega)

theorem levelGroups_ne_nil (h : g.Reachable) (horder : g.IsOrder order) :
    ∀ group ∈ g.levelGroups order, group ≠ [] := by
  intro group hgroup
  obtain ⟨level, hlevel, rfl⟩ := List.mem_map.mp hgroup
  rw [List.mem_range] at hlevel
  -- The number of groups is one more than the highest level that a place was given.
  obtain ⟨top, htop⟩ := Nat.exists_eq_succ_of_ne_zero (Nat.ne_zero_of_lt hlevel)
  obtain ⟨given, hgiven, hsame⟩ := List.mem_map.mp (foldl_max_mem htop)
  obtain ⟨index, hindex⟩ := List.getElem?_of_mem hgiven
  cases given with
  | none => cases hsame
  | some high =>
      have hhigh : high = top := by simpa using hsame
      have hbelow : level ≤ high := by omega
      obtain ⟨other, hother⟩ := exists_hasLevel_of_le h horder hindex hbelow
      exact List.ne_nil_of_mem (mem_tasksOfLevel.mpr hother)

/-! ## Names in groups -/

/-- There is an edge to the place of a name from that of another one. -/
def WaitsFor (g : TaskGraph) (task dependency : String) : Prop :=
  ∃ source index, g.names[source]? = some dependency ∧ g.names[index]? = some task ∧
    g.Wired source index

theorem exists_standsIn (h : g.Reachable) (horder : g.IsOrder order) {index : Nat} {name : String}
    (hname : g.names[index]? = some name) :
    ∃ level, StandsIn ((g.levelGroups order).map fun group => group.map g.nameAt) level name := by
  obtain ⟨hlt, -⟩ := List.getElem?_eq_some_iff.mp hname
  have hindex : index < g.size := by simpa [names, size] using hlt
  exact ⟨_, (standsIn_iff h horder).mpr
    ⟨index, hname, (hasLevel_levels_iff h horder).mpr ⟨hindex, rfl⟩⟩⟩

/-- The groups of a sorted graph are layers of its edges. -/
theorem layers_levelGroups (h : g.Reachable) (horder : g.IsOrder order) :
    Layers g.names g.WaitsFor
      ((g.levelGroups order).map fun group => group.map g.nameAt) := by
  have hperm : ((g.levelGroups order).map fun group => group.map g.nameAt).flatten.Perm
      g.names := by
    rw [← map_nameAt_range, ← List.map_flatten]
    exact (perm_levelGroups h horder).map g.nameAt
  constructor
  case complete => exact hperm
  case distinct => exact hperm.nodup_iff.mpr h.numbers.nodup
  case ordered =>
    intro group hgroup
    obtain ⟨places, hplaces, rfl⟩ := List.mem_map.mp hgroup
    obtain ⟨level, -, rfl⟩ := List.mem_map.mp hplaces
    obtain ⟨_, hlevelled, -⟩ := levelled_levels h horder
    rw [← map_nameAt_range, ← hlevelled.length]
    exact (tasksOfLevel_sublist level).map g.nameAt
  case inhabited =>
    intro group hgroup
    obtain ⟨places, hplaces, rfl⟩ := List.mem_map.mp hgroup
    simpa using levelGroups_ne_nil h horder places hplaces
  case earlier =>
    intro name dependency hwaits
    obtain ⟨source, index, hsource, hindex, hwired⟩ := hwaits
    refine ⟨exists_standsIn h horder hsource, exists_standsIn h horder hindex, ?_⟩
    intro low high hlow hhigh
    obtain ⟨place, hplace, hlow⟩ := (standsIn_iff h horder).mp hlow
    obtain ⟨place', hplace', hhigh⟩ := (standsIn_iff h horder).mp hhigh
    have hsame : place = source := h.numbers.place_eq hplace hsource
    have hsame' : place' = index := h.numbers.place_eq hplace' hindex
    rw [hsame] at hlow
    rw [hsame'] at hhigh
    exact level_lt_of_wired h horder hwired hlow hhigh
  case supported =>
    intro level name hstands
    obtain ⟨index, hindex, hlevel⟩ := (standsIn_iff h horder).mp hstands
    have hafter := ((hasLevel_levels_iff h horder).mp hlevel).2
    obtain ⟨source, hwired, hsource⟩ := exists_wired_of_levelAfter hafter.symm
    have hname := getElem?_names ((hasLevel_levels_iff h horder).mp hsource).1
    exact ⟨g.nameAt source, ⟨source, index, hname, hindex, hwired⟩,
      (standsIn_iff h horder).mpr ⟨source, hname, hsource⟩⟩

/-! ## Wired graphs -/

theorem dependsOn_of_waitsFor (h : g.Reachable) {task dependency : String}
    (hwaits : g.WaitsFor task dependency) : g.DependsOn task dependency := by
  obtain ⟨source, index, hsource, hindex, hwired⟩ := hwaits
  have hdepends := dependsOn_nameAt h.numbers (h.adjacent_of_wired hwired)
  rwa [nameAt_eq hsource, nameAt_eq hindex] at hdepends

theorem waitsFor_wire {next : TaskGraph} (h : g.Reachable) (hwire : g.wire = .ok next) :
    next.WaitsFor = g.DependsOn := by
  have hnext : next.Reachable := h.wire hwire
  rw [← dependsOn_wire hwire]
  funext task dependency
  apply propext
  refine ⟨dependsOn_of_waitsFor hnext, fun hdepends => ?_⟩
  have hadjacent := adjacent_index hnext.numbers hdepends
  obtain ⟨node, hnode, rfl, -, hknown⟩ := hdepends
  obtain ⟨index, hindex⟩ := List.getElem?_of_mem (List.mem_map_of_mem hnode)
  obtain ⟨source, hsource⟩ := List.getElem?_of_mem hknown
  have htask : next.index? node.name = some index := hnext.numbers.get?_eq_some_iff.mpr hindex
  have hdependency : next.index? dependency = some source :=
    hnext.numbers.get?_eq_some_iff.mpr hsource
  rw [htask, hdependency] at hadjacent
  exact ⟨source, index, hsource, hindex, (h.wired_wire_iff hwire).mpr hadjacent⟩

/-- Every declared dependency is wired. -/
def FullyWired (g : TaskGraph) : Prop :=
  ∀ node ∈ g.nodes, ∀ dependency ∈ node.dependencies, g.WaitsFor node.name dependency

theorem fullyWired_wire {next : TaskGraph} (h : g.Reachable) (hwire : g.wire = .ok next) :
    next.FullyWired := by
  intro node hnode dependency hdependency
  obtain ⟨hmissing, rfl⟩ := wire_eq_ok hwire
  have hknown : dependency ∈ g.names :=
    (missing_eq_nil_iff h.numbers).mp hmissing node hnode dependency hdependency
  rw [waitsFor_wire h hwire]
  exact ⟨node, hnode, rfl, hdependency, hknown⟩

theorem FullyWired.waitsFor_eq (hfull : g.FullyWired) (h : g.Reachable) :
    g.WaitsFor = g.DependsOn := by
  funext task dependency
  apply propext
  refine ⟨dependsOn_of_waitsFor h, fun hdepends => ?_⟩
  obtain ⟨node, hnode, rfl, hdependency, -⟩ := hdepends
  exact hfull node hnode dependency hdependency

theorem parallelGroups_of_acyclic (h : g.Reachable) (hacyclic : Acyclic g.DependsOn) :
    ∃ groups, g.parallelGroups = .ok groups ∧ Layers g.names g.WaitsFor groups := by
  obtain ⟨order, hsorted, horder⟩ := sorted_of_acyclic h hacyclic
  refine ⟨_, ?_, layers_levelGroups h horder⟩
  rw [parallelGroups, hsorted, Except.map]

/-- The groups of a wired graph without cycles are layers of its declared dependencies. -/
theorem parallelGroups_of_wire {next : TaskGraph} (h : g.Reachable) (hwire : g.wire = .ok next)
    (hacyclic : Acyclic g.DependsOn) :
    ∃ groups, next.parallelGroups = .ok groups ∧ Layers g.names g.DependsOn groups := by
  rw [← dependsOn_wire hwire] at hacyclic
  rw [← waitsFor_wire h hwire, ← names_wire hwire]
  exact parallelGroups_of_acyclic (h.wire hwire) hacyclic

end CiPipeline.TaskGraph
