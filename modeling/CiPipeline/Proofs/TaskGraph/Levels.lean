import CiPipeline.Proofs.TaskGraph.Order

/-!
# Levels

The levels that are given to places along an order of execution. Main statements: every place has
the level that the levels of its dependencies make of it, and a name stands in the group of the
level of its place.
-/

namespace CiPipeline.TaskGraph

variable {g : TaskGraph} {levels : List (Option Nat)} {order : List Nat}

/-- A place has been given a level. -/
def HasLevel (levels : List (Option Nat)) (index level : Nat) : Prop :=
  levels[index]? = some (some level)

theorem le_foldl_max {numbers : List Nat} {n : Nat} (h : n ∈ numbers) :
    n ≤ numbers.foldl max 0 := by
  rw [List.foldl_max]
  exact (List.le_max?_getD_of_mem h).trans (Nat.le_max_right _ _)

/-! ## The level of a place -/

/-- The level hangs on those of the dependencies only. -/
theorem levelAfter_congr {other : List (Option Nat)} {index : Nat}
    (h : ∀ dependency, g.Wired dependency index → levels[dependency]? = other[dependency]?) :
    g.levelAfter levels index = g.levelAfter other index := by
  have hknown : ((g.wiredDependencies index).filterMap fun source => (levels[source]?).join) =
      (g.wiredDependencies index).filterMap fun source => (other[source]?).join :=
    List.filterMap_congr fun dependency hdependency => by
      rw [h dependency (mem_wiredDependencies.mp hdependency)]
  rw [levelAfter, hknown, levelAfter]

theorem lt_levelAfter {index dependency level : Nat} (hwired : g.Wired dependency index)
    (hlevel : HasLevel levels dependency level) : level < g.levelAfter levels index := by
  have hknown : level ∈ (g.wiredDependencies index).filterMap fun source =>
      (levels[source]?).join :=
    List.mem_filterMap.mpr ⟨dependency, mem_wiredDependencies.mpr hwired, by rw [hlevel]; rfl⟩
  exact le_foldl_max (List.mem_map_of_mem hknown)

/-! ## All levels -/

/-- The places that are done with have their levels, and so has whatever they depend on. -/
structure Levelled (g : TaskGraph) (done : List Nat) (levels : List (Option Nat)) : Prop where
  length : levels.length = g.size
  closed : ∀ dependency dependent, g.Wired dependency dependent → dependent ∈ done →
    dependency ∈ done
  level : ∀ index ∈ done, HasLevel levels index (g.levelAfter levels index)

theorem Levelled.step {done : List Nat} {index : Nat} (h : g.Levelled done levels)
    (hnew : index ∉ done) (hindex : index < g.size)
    (hdependencies : ∀ dependency, g.Wired dependency index → dependency ∈ done) :
    g.Levelled (index :: done) (levels.set index (some (g.levelAfter levels index))) where
  length := by rw [List.length_set, h.length]
  closed dependency dependent hwired hdependent := by
    rcases List.mem_cons.mp hdependent with rfl | hdone
    · exact List.mem_cons_of_mem _ (hdependencies dependency hwired)
    · exact List.mem_cons_of_mem _ (h.closed dependency dependent hwired hdone)
  level other hother := by
    have hkept : ∀ place ∈ done,
        (levels.set index (some (g.levelAfter levels index)))[place]? = levels[place]? := by
      intro place hplace
      refine List.getElem?_set_ne ?_
      rintro rfl
      exact hnew hplace
    have hsame : ∀ place, (∀ dependency, g.Wired dependency place → dependency ∈ done) →
        g.levelAfter (levels.set index (some (g.levelAfter levels index))) place =
          g.levelAfter levels place := fun place hplace =>
      levelAfter_congr fun dependency hwired => hkept dependency (hplace dependency hwired)
    rcases List.mem_cons.mp hother with rfl | hdone
    · rw [HasLevel, hsame other hdependencies]
      exact List.getElem?_set_self (by rw [h.length]; exact hindex)
    · have hplace : ∀ dependency, g.Wired dependency other → dependency ∈ done :=
        fun dependency hwired => h.closed dependency other hwired hdone
      rw [HasLevel, hsame other hplace, hkept other hdone]
      exact h.level other hdone

/-- Along an order of execution every place comes after whatever it depends on. -/
theorem Levelled.run {done : List Nat} (h : g.Levelled done levels)
    (horder : g.Arranged order) (hdisjoint : ∀ index ∈ order, index ∉ done)
    (hall : ∀ index, index ∈ done ∨ index ∈ order ↔ index < g.size)
    (hbounded : ∀ dependency dependent, g.Wired dependency dependent → dependency < g.size) :
    ∃ done, g.Levelled done (order.foldl
      (fun levels index => levels.set index (some (g.levelAfter levels index))) levels) ∧
      ∀ index < g.size, index ∈ done := by
  induction horder generalizing done levels with
  | nil => exact ⟨done, h, fun index hindex => by simpa using (hall index).mpr hindex⟩
  | @cons index rest hrest hnew hdependents ih =>
      have hindex : index < g.size := (hall index).mp (.inr List.mem_cons_self)
      have hdependencies : ∀ dependency, g.Wired dependency index → dependency ∈ done :=
        fun dependency =>
          (Arranged.cons hrest hnew hdependents).mem_before hall hbounded
      have hnext := h.step (hdisjoint index List.mem_cons_self) hindex hdependencies
      refine ih hnext (fun other hother hdone => ?_) fun other => ?_
      · rcases List.mem_cons.mp hdone with rfl | hdone
        · exact hnew hother
        · exact hdisjoint other (List.mem_cons_of_mem _ hother) hdone
      · rw [← hall other, List.mem_cons, List.mem_cons]
        tauto

theorem levelled_levels (h : g.Reachable) (horder : g.IsOrder order) :
    ∃ done, g.Levelled done (g.levels order) ∧ ∀ index < g.size, index ∈ done := by
  have hstart : g.Levelled [] (List.replicate g.size none) :=
    ⟨List.length_replicate, by simp, by simp⟩
  exact hstart.run horder.arranged (by simp) (by simpa using horder.complete) fun _ _ hwired =>
    (h.wired_lt hwired).1

/-- The places of a graph have levels and nothing else has one, and the level of a place is what the
levels of its dependencies make of it. -/
theorem hasLevel_levels_iff (h : g.Reachable) (horder : g.IsOrder order) {index level : Nat} :
    HasLevel (g.levels order) index level ↔
      index < g.size ∧ level = g.levelAfter (g.levels order) index := by
  obtain ⟨done, hlevelled, hall⟩ := levelled_levels h horder
  constructor
  · intro hlevel
    obtain ⟨hlt, -⟩ := List.getElem?_eq_some_iff.mp hlevel
    rw [hlevelled.length] at hlt
    refine ⟨hlt, ?_⟩
    have hsame := hlevel.symm.trans (hlevelled.level index (hall index hlt))
    exact Option.some.inj (Option.some.inj hsame)
  · rintro ⟨hlt, rfl⟩
    exact hlevelled.level index (hall index hlt)

theorem level_lt_of_wired (h : g.Reachable) (horder : g.IsOrder order)
    {dependency dependent low high : Nat} (hwired : g.Wired dependency dependent)
    (hlow : HasLevel (g.levels order) dependency low)
    (hhigh : HasLevel (g.levels order) dependent high) : low < high := by
  rw [((hasLevel_levels_iff h horder).mp hhigh).2]
  exact lt_levelAfter hwired hlow

/-! ## Groups -/

theorem mem_tasksOfLevel {level index : Nat} :
    index ∈ tasksOfLevel levels level ↔ HasLevel levels index level := by
  rw [tasksOfLevel, HasLevel, List.mem_filterMap]
  constructor
  · rintro ⟨⟨own, place⟩, hplace, howns⟩
    obtain ⟨rfl, ⟨⟩⟩ := Option.ite_none_right_eq_some.mp howns
    exact List.mem_zipIdx_iff_getElem?.mp hplace
  · intro h
    exact ⟨(some level, index), List.mem_zipIdx_iff_getElem?.mpr h, by simp⟩

/-- The group of a level has the places that were given this level. -/
theorem mem_levelGroups {level index : Nat} :
    (∃ group, (g.levelGroups order)[level]? = some group ∧ index ∈ group) ↔
      HasLevel (g.levels order) index level := by
  rw [levelGroups, List.getElem?_map]
  constructor
  · rintro ⟨group, hgroup, hindex⟩
    obtain ⟨number, hnumber, rfl⟩ := Option.map_eq_some_iff.mp hgroup
    obtain ⟨_, hsame⟩ := List.getElem?_eq_some_iff.mp hnumber
    rw [List.getElem_range] at hsame
    exact mem_tasksOfLevel.mp (hsame ▸ hindex)
  · intro h
    have hheight : level + 1 ∈ (g.levels order).map fun level => level.elim 0 (· + 1) :=
      List.mem_map_of_mem (List.mem_of_getElem? h)
    have hlevel := le_foldl_max hheight
    refine ⟨tasksOfLevel (g.levels order) level, ?_, mem_tasksOfLevel.mpr h⟩
    rw [List.getElem?_range hlevel, Option.map_some]

/-- A name stands in the group of a level. -/
def StandsIn (groups : List (List String)) (level : Nat) (name : String) : Prop :=
  ∃ group, groups[level]? = some group ∧ name ∈ group

/-- Both names stand in groups, and the one in a group before that of the other. -/
structure StandsBefore (groups : List (List String)) (earlier later : String) : Prop where
  stands_earlier : ∃ level, StandsIn groups level earlier
  stands_later : ∃ level, StandsIn groups level later
  lt : ∀ low high, StandsIn groups low earlier → StandsIn groups high later → low < high

theorem standsIn_iff (h : g.Reachable) (horder : g.IsOrder order) {level : Nat} {name : String} :
    StandsIn ((g.levelGroups order).map fun group => group.map g.nameAt) level name ↔
      ∃ index, g.names[index]? = some name ∧ HasLevel (g.levels order) index level := by
  rw [StandsIn, List.getElem?_map]
  constructor
  · rintro ⟨group, hgroup, hname⟩
    obtain ⟨indices, hindices, rfl⟩ := Option.map_eq_some_iff.mp hgroup
    obtain ⟨index, hindex, rfl⟩ := List.mem_map.mp hname
    have hlevel := mem_levelGroups.mp ⟨indices, hindices, hindex⟩
    exact ⟨index, getElem?_names ((hasLevel_levels_iff h horder).mp hlevel).1, hlevel⟩
  · rintro ⟨index, hname, hlevel⟩
    obtain ⟨indices, hindices, hindex⟩ := mem_levelGroups.mpr hlevel
    refine ⟨_, Option.map_eq_some_iff.mpr ⟨indices, hindices, rfl⟩, ?_⟩
    exact List.mem_map.mpr ⟨index, hindex, nameAt_eq hname⟩

end CiPipeline.TaskGraph
