import CiPipeline.Proofs.Pipeline.Validation

/-!
# Chains

A chain makes each step of a stage depend on all names of the stage just before. Main statements:
these are exactly the dependencies that it adds; with them each stage comes after every earlier
one from which it is not cut off by a stage without steps; and a name without a step becomes a
dependency only where it stands just before a step.
-/

namespace CiPipeline

/-! ## Stages in succession -/

/-- The first name is of a list, the second one of the list just before it. -/
def Succeeds (stages : List (List String)) (name dependency : String) : Prop :=
  ∃ (place : Nat) (earlier later : List String), stages[place]? = some earlier ∧
    stages[place + 1]? = some later ∧ dependency ∈ earlier ∧ name ∈ later

theorem not_succeeds_singleton (stage : List String) (name dependency : String) :
    ¬ Succeeds [stage] name dependency := by
  intro h
  obtain ⟨place, earlier, later, -, hlater, -, -⟩ := h
  simp at hlater

theorem succeeds_cons_iff {first second : List String} {rest : List (List String)}
    {name dependency : String} :
    Succeeds (first :: second :: rest) name dependency ↔
      dependency ∈ first ∧ name ∈ second ∨ Succeeds (second :: rest) name dependency := by
  constructor
  · intro h
    obtain ⟨place, earlier, later, hearlier, hlater, hdependency, hname⟩ := h
    cases place with
    | zero =>
        cases hearlier
        cases hlater
        exact .inl ⟨hdependency, hname⟩
    | succ place => exact .inr ⟨place, earlier, later, hearlier, hlater, hdependency, hname⟩
  · intro h
    rcases h with ⟨hdependency, hname⟩ | h
    · exact ⟨0, first, second, rfl, rfl, hdependency, hname⟩
    · obtain ⟨place, earlier, later, hearlier, hlater, hmem⟩ := h
      exact ⟨place + 1, earlier, later, hearlier, hlater, hmem⟩

/-- Nothing succeeds a list without names. -/
theorem succeeds_nil_cons_iff {stages : List (List String)} {name dependency : String} :
    Succeeds ([] :: stages) name dependency ↔ Succeeds stages name dependency := by
  cases stages with
  | nil =>
      have hnone : ¬ Succeeds [] name dependency := by
        intro h
        obtain ⟨place, earlier, later, hearlier, -⟩ := h
        simp at hearlier
      simp [hnone, not_succeeds_singleton]
  | cons first rest => simp [succeeds_cons_iff]

/-- Names that succeed each other are connected, as long as there is a name to go by in every list
in between. -/
theorem transGen_of_succeeds {stages : List (List String)} {r : String → String → Prop}
    (hr : ∀ name dependency, Succeeds stages name dependency → r name dependency)
    {low high : Nat} (hlt : low < high) {earlier later : List String}
    (hearlier : stages[low]? = some earlier) (hlater : stages[high]? = some later)
    (hbetween : ∀ place, low < place → place < high → stages[place]? ≠ some []) :
    ∀ name ∈ later, ∀ dependency ∈ earlier, Relation.TransGen r name dependency := by
  induction high generalizing later with
  | zero => omega
  | succ high ih =>
      intro name hname dependency hdependency
      by_cases hnext : low = high
      · subst hnext
        exact .single (hr _ _ ⟨low, earlier, later, hearlier, hlater, hdependency, hname⟩)
      · obtain ⟨hbound, -⟩ := List.getElem?_eq_some_iff.mp hlater
        have hlow : low < high := by omega
        have hmiddle : stages[high]? = some stages[high] := List.getElem?_eq_getElem (by omega)
        obtain ⟨step, hstep⟩ : ∃ step, step ∈ stages[high] := by
          apply List.exists_mem_of_ne_nil
          intro hempty
          exact hbetween high hlow (by omega) (hempty ▸ hmiddle)
        have hfirst : r name step :=
          hr _ _ ⟨high, stages[high], later, hmiddle, hlater, hstep, hname⟩
        have hrest : Relation.TransGen r step dependency :=
          ih hlow hmiddle (fun place hafter hbefore => hbetween place hafter (by omega)) step hstep
            dependency hdependency
        exact .head hfirst hrest

namespace Pipeline

variable {pipeline : Pipeline}

/-! ## Links -/

theorem resolved_iff :
    pipeline.Resolved ↔
      ∀ name dependency, pipeline.DependsOn name dependency → dependency ∈ pipeline.names := by
  constructor
  · rintro hresolved name dependency ⟨step, hstep, -, hdependency⟩
    exact hresolved step hstep dependency hdependency
  · intro h step hstep dependency hdependency
    exact h step.name dependency ⟨step, hstep, rfl, hdependency⟩

/-- A step with more dependencies in its own place: these and no others are new. -/
theorem dependsOn_putStep_iff {place : Nat} {step : Step}
    (hstep : pipeline.steps[place]? = some step) {dependencies : List String}
    {name dependency : String} :
    (pipeline.putStep place (step.addDependencies dependencies)).DependsOn name dependency ↔
      pipeline.DependsOn name dependency ∨
        name = step.name ∧ dependency ∈ dependencies ∧ dependency ≠ "" := by
  obtain ⟨hlt, -⟩ := List.getElem?_eq_some_iff.mp hstep
  have hnew : step.addDependencies dependencies ∈
      (pipeline.putStep place (step.addDependencies dependencies)).steps :=
    List.mem_set hlt _
  constructor
  · intro h
    obtain ⟨other, hother, hname, hdependency⟩ := h
    rcases List.mem_or_eq_of_mem_set hother with hold | rfl
    · exact .inl ⟨other, hold, hname, hdependency⟩
    · rw [Step.name_addDependencies] at hname
      rcases Step.mem_dependencies_addDependencies.mp hdependency with hown | hadded
      · exact .inl ⟨step, List.mem_of_getElem? hstep, hname, hown⟩
      · exact .inr ⟨hname.symm, hadded⟩
  · intro h
    rcases h with ⟨other, hother, hname, hdependency⟩ | ⟨rfl, hadded⟩
    · obtain ⟨i, hi⟩ := List.mem_iff_getElem?.mp hother
      by_cases hplace : i = place
      · rw [hplace, hstep] at hi
        cases hi
        exact ⟨_, hnew, (Step.name_addDependencies step dependencies).trans hname,
          Step.mem_dependencies_addDependencies.mpr (.inl hdependency)⟩
      · have hkept : (pipeline.putStep place (step.addDependencies dependencies)).steps[i]? =
            some other := by
          rw [putStep, List.getElem?_set_ne (Ne.symm hplace), hi]
        exact ⟨other, List.mem_of_getElem? hkept, hname, hdependency⟩
    · exact ⟨_, hnew, Step.name_addDependencies step dependencies,
        Step.mem_dependencies_addDependencies.mpr (.inr hadded)⟩

/-- A required step that is registered is found, and gets the dependencies. -/
theorem dependsOn_require_iff (h : pipeline.Indexed) {dependencies : List String}
    {required name dependency : String} :
    (pipeline.require dependencies required).DependsOn name dependency ↔
      pipeline.DependsOn name dependency ∨ name = required ∧ required ∈ pipeline.names ∧
        dependency ∈ dependencies ∧ dependency ≠ "" := by
  rw [require]
  cases hplace : pipeline.index? required with
  | none =>
      have hunknown : required ∉ pipeline.names := h.numbers.get?_eq_none_iff.mp hplace
      simp [hunknown]
  | some place =>
      have hname : pipeline.names[place]? = some required := h.numbers.get?_eq_some_iff.mp hplace
      have hknown : required ∈ pipeline.names := List.mem_of_getElem? hname
      obtain ⟨step, hstep, rfl⟩ := getElem?_names_eq_some_iff.mp hname
      dsimp only
      rw [List.modify_eq_set_getElem?, hstep]
      change (pipeline.putStep place (step.addDependencies dependencies)).DependsOn _ _ ↔ _
      rw [dependsOn_putStep_iff hstep]
      simp [hknown]

theorem names_require (pipeline : Pipeline) (dependencies : List String) (name : String) :
    (pipeline.require dependencies name).names = pipeline.names ∧
      (pipeline.require dependencies name).places = pipeline.places :=
  names_foldl_require pipeline dependencies [name]

theorem dependsOn_foldl_require_iff (h : pipeline.Indexed) {dependencies required : List String}
    {name dependency : String} :
    (required.foldl (·.require dependencies) pipeline).DependsOn name dependency ↔
      pipeline.DependsOn name dependency ∨ name ∈ required ∧ name ∈ pipeline.names ∧
        dependency ∈ dependencies ∧ dependency ≠ "" := by
  induction required generalizing pipeline with
  | nil => simp
  | cons first required ih =>
      obtain ⟨hnames, hplaces⟩ := names_require pipeline dependencies first
      rw [List.foldl_cons, ih (h.of_same hnames hplaces), dependsOn_require_iff h, hnames,
        List.mem_cons]
      constructor
      · intro hdepends
        rcases hdepends with (hold | ⟨rfl, hknown, hadded⟩) | ⟨hmem, hadded⟩
        · exact .inl hold
        · exact .inr ⟨.inl rfl, hknown, hadded⟩
        · exact .inr ⟨.inr hmem, hadded⟩
      · intro hdepends
        rcases hdepends with hold | ⟨rfl | hmem, hadded⟩
        · exact .inl (.inl hold)
        · exact .inl (.inr ⟨rfl, hadded⟩)
        · exact .inr ⟨hmem, hadded⟩

/-- The lists are linked, each to the one before it, and the first one to what is there already. -/
theorem dependsOn_link_iff (h : pipeline.Indexed) {previous : List String}
    {stages : List (List String)} {name dependency : String} :
    (link previous stages pipeline).2.DependsOn name dependency ↔
      pipeline.DependsOn name dependency ∨
        Succeeds (previous :: stages) name dependency ∧ name ∈ pipeline.names ∧
          dependency ≠ "" := by
  induction stages generalizing previous pipeline with
  | nil => simp [link, not_succeeds_singleton]
  | cons current stages ih =>
      obtain ⟨hnames, hplaces⟩ := names_foldl_require pipeline previous current
      rw [link, ih (h.of_same hnames hplaces), dependsOn_foldl_require_iff h, hnames,
        succeeds_cons_iff]
      tauto

/-! ## Chains -/

theorem link_fst (previous : List String) (stages : List (List String)) (pipeline : Pipeline) :
    (link previous stages pipeline).1 = stages.getLastD previous := by
  induction stages generalizing previous pipeline with
  | nil => rfl
  | cons current stages ih => rw [link, ih, List.getLastD_cons]

/-- A chain is never refused, and its group has the steps of the last stage. -/
theorem perform_chain (pipeline : Pipeline) (stages : List Stage) :
    (chain stages).perform pipeline =
      (.ok ⟨"chain", (stages.map Stage.tasks).getLastD []⟩,
        (link [] (stages.map Stage.tasks) pipeline).2) := by
  rw [← link_fst [] (stages.map Stage.tasks) pipeline]
  rfl

/-- A chain leaves what does not change where a step gets more dependencies. -/
theorem chain_leaves {β : Type} (read : Pipeline → β)
    (hput : ∀ {pipeline : Pipeline} {place : Nat} {step : Step},
      pipeline.steps[place]? = some step → ∀ names : List String,
        read (pipeline.putStep place (step.addDependencies names)) = read pipeline)
    (stages : List Stage) (pipeline : Pipeline) :
    read ((chain stages).perform pipeline).2 = read pipeline := by
  let holds (next : Pipeline) : Prop := read next = read pipeline
  have hheld {next : Pipeline} {place : Nat} {step : Step} (names : List String) (h : holds next)
      (hstep : next.steps[place]? = some step) :
      holds (next.putStep place (step.addDependencies names)) :=
    (hput hstep names).trans h
  rw [perform_chain]
  exact holds_link hheld [] _ rfl

/-- A chain of registered steps makes each step depend on all steps of the stage just before it, and
adds no other dependency. So every step comes after all steps of an earlier stage, directly or not,
if no stage in between is without steps. -/
theorem chain_sequential (h : pipeline.Reachable) (stages : List Stage)
    (hregistered : ∀ stage ∈ stages, ∀ name ∈ stage.tasks, name ∈ pipeline.names) :
    let lists := stages.map Stage.tasks
    ∃ next, (chain stages).perform pipeline = (.ok ⟨"chain", lists.getLastD []⟩, next) ∧
      (∀ name dependency, next.DependsOn name dependency ↔
        pipeline.DependsOn name dependency ∨ Succeeds lists name dependency) ∧
      ∀ (low high : Nat) (earlier later : List String), low < high →
        lists[low]? = some earlier → lists[high]? = some later →
        (∀ place, low < place → place < high → lists[place]? ≠ some []) →
        ∀ name ∈ later, ∀ dependency ∈ earlier,
          Relation.TransGen next.DependsOn name dependency := by
  intro lists
  have hindexed := h.indexed
  have hknown : ∀ name dependency, Succeeds lists name dependency →
      name ∈ pipeline.names ∧ dependency ≠ "" := by
    intro name dependency hsucceeds
    obtain ⟨place, earlier, later, hearlier, hlater, hdependency, hname⟩ := hsucceeds
    have hlist : ∀ list ∈ lists, ∀ name ∈ list, name ∈ pipeline.names := by
      intro list hlist name hname
      obtain ⟨stage, hstage, rfl⟩ := List.mem_map.mp hlist
      exact hregistered stage hstage name hname
    refine ⟨hlist later (List.mem_of_getElem? hlater) name hname, ?_⟩
    intro hempty
    exact hindexed.not_empty
      (hempty ▸ hlist earlier (List.mem_of_getElem? hearlier) dependency hdependency)
  have hdepends : ∀ name dependency, (link [] lists pipeline).2.DependsOn name dependency ↔
      pipeline.DependsOn name dependency ∨ Succeeds lists name dependency := by
    intro name dependency
    rw [dependsOn_link_iff hindexed, succeeds_nil_cons_iff,
      and_iff_left_of_imp (hknown name dependency)]
  refine ⟨_, perform_chain pipeline stages, hdepends, ?_⟩
  intro low high earlier later hlt hearlier hlater hbetween
  refine transGen_of_succeeds (fun name dependency hsucceeds => ?_) hlt hearlier hlater hbetween
  exact (hdepends name dependency).mpr (.inr hsucceeds)

/-- A fan of two tasks between two others. -/
theorem chain_of_fan :
    let pipeline := (withDefaults none).afterCalls
      [.addTask "fetch", .addTask "lint", .addTask "test", .addTask "publish"]
    let stages : List Stage :=
      [.task "fetch", .group ⟨"checks", ["lint", "test"]⟩, .task "publish"]
    let next := ((chain stages).perform pipeline).2
    pipeline.Reachable ∧
      (∀ stage ∈ stages, ∀ name ∈ stage.tasks, name ∈ pipeline.names) ∧
      Relation.TransGen next.DependsOn "publish" "fetch" := by
  intro pipeline stages next
  have hreachable : pipeline.Reachable := (Reachable.start none).afterCalls _
  have hregistered : ∀ stage ∈ stages, ∀ name ∈ stage.tasks, name ∈ pipeline.names := by
    decide +kernel
  obtain ⟨last, hchain, -, hfollows⟩ := chain_sequential hreachable stages hregistered
  have hlast : last = next := (congrArg Prod.snd hchain).symm
  have hbetween : ∀ place, 0 < place → place < 2 →
      (stages.map Stage.tasks)[place]? ≠ some [] := by
    intro place hlow hhigh
    obtain rfl : place = 1 := by omega
    decide
  refine ⟨hreachable, hregistered, ?_⟩
  rw [← hlast]
  exact hfollows 0 2 ["fetch"] ["publish"] (by decide) rfl rfl hbetween "publish" (by simp) "fetch"
    (by simp)

/-- A stage without steps cuts the chain: what comes after it does not wait for what came before. -/
theorem chain_cut_by_empty_group :
    let pipeline := (withDefaults none).afterCalls
      [.addTask "a", .setTask 0 (.run "make"), .addTask "b", .setTask 1 (.run "make")]
    let stages : List Stage := [.task "a", .group ⟨"none", []⟩, .task "b"]
    let next := ((chain stages).perform pipeline).2
    pipeline.Reachable ∧
      (∀ stage ∈ stages, ∀ name ∈ stage.tasks, name ∈ pipeline.names) ∧
      next.executionLevels = .ok [["a", "b"]] ∧ ¬ Relation.TransGen next.DependsOn "b" "a" := by
  intro pipeline stages next
  have hreachable : pipeline.Reachable := (Reachable.start none).afterCalls _
  have hregistered : ∀ stage ∈ stages, ∀ name ∈ stage.tasks, name ∈ pipeline.names := by
    decide +kernel
  have hlevels : next.executionLevels = .ok [["a", "b"]] := by decide +kernel
  have hnone : ∀ step ∈ next.steps, step.dependencies = [] := by decide +kernel
  refine ⟨hreachable, hregistered, hlevels, fun htransGen => ?_⟩
  obtain ⟨dependency, ⟨step, hstep, -, hdependency⟩, -⟩ :=
    Relation.TransGen.head'_iff.mp htransGen
  rw [hnone step hstep] at hdependency
  cases hdependency

/-! ## Names without a step -/

/-- A chain of any names is not refused, gives all names of the last stage, and registers nothing.
It makes each step depend on all names but the empty one of the stage just before its own, whether
they have a step or not. So all dependencies have a step afterwards exactly if they had one before
and no name without a step stands in a stage just before that of a step. -/
theorem chain_resolved_iff (h : pipeline.Reachable) (stages : List Stage) :
    let lists := stages.map Stage.tasks
    ∃ next, (chain stages).perform pipeline = (.ok ⟨"chain", lists.getLastD []⟩, next) ∧
      next.names = pipeline.names ∧
      (∀ name dependency, next.DependsOn name dependency ↔
        pipeline.DependsOn name dependency ∨
          Succeeds lists name dependency ∧ name ∈ pipeline.names ∧ dependency ≠ "") ∧
      (next.Resolved ↔ pipeline.Resolved ∧
        ∀ name dependency, Succeeds lists name dependency → name ∈ pipeline.names →
          dependency ∈ pipeline.names ∨ dependency = "") := by
  intro lists
  have hnames : (link [] lists pipeline).2.names = pipeline.names :=
    (names_link pipeline [] lists).1
  have hdepends : ∀ name dependency, (link [] lists pipeline).2.DependsOn name dependency ↔
      pipeline.DependsOn name dependency ∨
        Succeeds lists name dependency ∧ name ∈ pipeline.names ∧ dependency ≠ "" := by
    intro name dependency
    rw [dependsOn_link_iff h.indexed, succeeds_nil_cons_iff]
  refine ⟨(link [] lists pipeline).2, perform_chain pipeline stages, hnames, hdepends, ?_⟩
  rw [resolved_iff, resolved_iff, hnames]
  constructor
  · intro hresolved
    refine ⟨fun name dependency hold =>
      hresolved name dependency ((hdepends name dependency).mpr (.inl hold)), ?_⟩
    intro name dependency hsucceeds hname
    by_cases hempty : dependency = ""
    · exact .inr hempty
    · have hnew := (hdepends name dependency).mpr (.inr ⟨hsucceeds, hname, hempty⟩)
      exact .inl (hresolved name dependency hnew)
  · intro h name dependency hnext
    obtain ⟨hresolved, hstages⟩ := h
    rcases (hdepends name dependency).mp hnext with hold | ⟨hsucceeds, hname, hnonempty⟩
    · exact hresolved name dependency hold
    · exact (hstages name dependency hsucceeds hname).resolve_right hnonempty

/-- A name without a step at the end of a chain is passed over. -/
theorem chain_of_unregistered_end :
    let pipeline := (withDefaults none).afterCalls
      [.addTask "fetch", .addTask "test", .addGate "approve"]
    let stages : List Stage :=
      [.task "fetch", .group ⟨"checks", ["test", "approve"]⟩, .group ⟨"late", ["ghost", ""]⟩]
    let next := ((chain stages).perform pipeline).2
    pipeline.Reachable ∧
      ((chain stages).perform pipeline).1 = .ok ⟨"chain", ["ghost", ""]⟩ ∧
      next.DependsOn "approve" "fetch" ∧ next.Resolved := by
  intro pipeline stages next
  have hreachable : pipeline.Reachable := (Reachable.start none).afterCalls _
  obtain ⟨last, hchain, -, hdepends, hresolved⟩ := chain_resolved_iff hreachable stages
  have hlast : last = next := (congrArg Prod.snd hchain).symm
  rw [hlast] at hdepends hresolved
  have happrove : Succeeds (stages.map Stage.tasks) "approve" "fetch" :=
    ⟨0, ["fetch"], ["test", "approve"], rfl, rfl, by simp, by simp⟩
  refine ⟨hreachable, congrArg Prod.fst hchain, (hdepends _ _).mpr (.inr ⟨happrove, ?_⟩), ?_⟩
  · decide +kernel
  · have hbefore : ∀ step ∈ pipeline.steps, step.dependencies = [] := by decide +kernel
    have hnone : pipeline.Resolved := by
      intro step hstep dependency hdependency
      rw [hbefore step hstep] at hdependency
      cases hdependency
    refine hresolved.mpr ⟨hnone, fun name dependency hsucceeds hknown => ?_⟩
    obtain ⟨place, earlier, later, hearlier, hlater, hdependency, hname⟩ := hsucceeds
    match place with
    | 0 =>
        cases hearlier
        rw [List.mem_singleton.mp hdependency]
        exact .inl (by decide +kernel)
    | 1 =>
        cases hlater
        have hunknown : ∀ name ∈ ["ghost", ""], name ∉ pipeline.names := by decide +kernel
        exact absurd hknown (hunknown name hname)
    | place + 2 => simp [stages] at hlater

/-- A name without a step in the midst of a chain becomes a dependency of the step behind it, and
the pipeline is not valid any more. -/
theorem chain_of_unregistered_middle :
    let pipeline := (withDefaults none).afterCalls
      [.addTask "a", .setTask 0 (.run "make"), .addTask "b", .setTask 1 (.run "make")]
    let next := ((chain [.task "a", .task "ghost", .task "b"]).perform pipeline).2
    pipeline.Reachable ∧ pipeline.validate = .ok () ∧ "ghost" ∉ next.names ∧
      next.DependsOn "b" "ghost" ∧
      next.validate = .error (.unknownDependency "b" "ghost" none) := by
  intro pipeline next
  have hreachable : pipeline.Reachable := (Reachable.start none).afterCalls _
  have hstep : ∃ step ∈ next.steps, step.name = "b" ∧ "ghost" ∈ step.dependencies := by
    decide +kernel
  exact ⟨hreachable, by decide +kernel, by decide +kernel, hstep, by decide +kernel⟩

end Pipeline

end CiPipeline
