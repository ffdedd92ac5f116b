import CiPipeline.Pipeline.Validation
import CiPipeline.Proofs.Pipeline.Names
import CiPipeline.Proofs.TaskGraph.Cycle

/-!
# What validation decides

The four conditions of a valid pipeline, each with what its check finds where it is violated. Main
statement: validation passes exactly the valid pipelines, and otherwise it reports the first
condition that is violated with its first offender.
-/

namespace CiPipeline

/-! ## Conditions on a step -/

/-- If the step is a task, it has a command. -/
def Step.Commanded (step : Step) : Prop :=
  ∀ task, step.task? = some task → ∃ command, task.command = some command ∧ command ≠ ""

/-- The cluster options that count for a step: its own if they ask anything, else the defaults. -/
inductive Step.Counts (defaults : Option KubernetesOptions) (step : Step) :
    KubernetesOptions → Prop where
  | own {options : KubernetesOptions} (hcluster : step.settings.cluster = some options)
      (hasks : options.isEmpty = false) : Counts defaults step options
  | default {options : KubernetesOptions}
      (hown : ∀ own, step.settings.cluster = some own → own.isEmpty = true)
      (hdefaults : defaults = some options) : Counts defaults step options

/-- The amounts of the options that count for the step are well formed. -/
def Step.WellFormed (defaults : Option KubernetesOptions) (step : Step) : Prop :=
  ∀ options, step.Counts defaults options → options.malformed? = none

theorem isBare_eq_false_iff {text : Option String} :
    isBare text = false ↔ ∃ given, text = some given ∧ given ≠ "" := by
  cases text with
  | none => simp [isBare]
  | some given => simp [isBare]

theorem Step.commanded_iff {step : Step} :
    step.Commanded ↔ (!step.isGate && isBare step.settings.command) = false := by
  rw [Commanded, task?]
  cases step.isGate with
  | true => simp
  | false => simp [isBare_eq_false_iff]

theorem Task.ownCluster?_eq_some_iff {task : Task} {options : KubernetesOptions} :
    task.ownCluster? = some options ↔ task.cluster = some options ∧ options.isEmpty = false := by
  simp [ownCluster?, Option.filter_eq_some_iff]

theorem Task.ownCluster?_eq_none_iff {task : Task} :
    task.ownCluster? = none ↔ ∀ own, task.cluster = some own → own.isEmpty = true := by
  simp [ownCluster?, Option.filter_eq_none_iff]

namespace Pipeline

/-- The options that validation looks at are those that count. -/
theorem checkedOptions_eq_some_iff {pipeline : Pipeline} {step : Step}
    {options : KubernetesOptions} :
    pipeline.checkedOptions step = some options ↔ step.Counts pipeline.defaults options := by
  rw [checkedOptions]
  cases hown : step.settings.ownCluster? with
  | some own =>
      obtain ⟨hcluster, hasks⟩ := Task.ownCluster?_eq_some_iff.mp hown
      rw [Option.some_or]
      constructor
      · rintro ⟨⟩
        exact .own hcluster hasks
      · rintro (⟨hcluster', -⟩ | ⟨hnone, -⟩)
        · rw [← hcluster, hcluster']
        · rw [hnone own hcluster] at hasks
          cases hasks
  | none =>
      have hnone := Task.ownCluster?_eq_none_iff.mp hown
      rw [Option.none_or]
      constructor
      · exact .default hnone
      · rintro (⟨hcluster, hasks⟩ | ⟨-, hdefaults⟩)
        · rw [hnone _ hcluster] at hasks
          cases hasks
        · exact hdefaults

/-! ## Conditions on a pipeline -/

def Commanded (pipeline : Pipeline) : Prop := ∀ step ∈ pipeline.steps, step.Commanded

/-- Every step depends on names of steps only. -/
def Resolved (pipeline : Pipeline) : Prop :=
  ∀ step ∈ pipeline.steps, ∀ dependency ∈ step.dependencies, dependency ∈ pipeline.names

/-- A step of one name lists another name among its dependencies. -/
def DependsOn (pipeline : Pipeline) (name dependency : String) : Prop :=
  ∃ step ∈ pipeline.steps, step.name = name ∧ dependency ∈ step.dependencies

def WellFormed (pipeline : Pipeline) : Prop :=
  ∀ step ∈ pipeline.steps, step.WellFormed pipeline.defaults

structure Valid (pipeline : Pipeline) : Prop where
  commanded : pipeline.Commanded
  resolved : pipeline.Resolved
  acyclic : Acyclic pipeline.DependsOn
  wellFormed : pipeline.WellFormed

/-- What a problem says of a pipeline: the conditions that come before the violated one hold, and
the offender is the first one. A cycle is a way along dependencies that starts and ends with the
task that is to blame. -/
inductive Describes (pipeline : Pipeline) : Invalid → Prop where
  | missingCommand {before after : List Step} {step : Step}
      (hsplit : pipeline.steps = before ++ step :: after)
      (hbefore : ∀ earlier ∈ before, earlier.Commanded) (hstep : ¬ step.Commanded) :
      Describes pipeline (.missingCommand step.name)
  | unknownDependency {before after : List (String × String)} {task dependency : String}
      (hcommanded : pipeline.Commanded)
      (hsplit : pipeline.requirements = before ++ (task, dependency) :: after)
      (hbefore : ∀ earlier ∈ before, earlier.2 ∈ pipeline.names)
      (hunknown : dependency ∉ pipeline.names) :
      Describes pipeline
        (.unknownDependency task dependency (Similarity.suggest? dependency pipeline.names))
  | cycle {path : List String} (hcommanded : pipeline.Commanded) (hresolved : pipeline.Resolved)
      (hcycle : IsCycle pipeline.DependsOn path)
      (hstart : path.head? = some (Invalid.cycle path).task)
      (hend : path.getLast? = some (Invalid.cycle path).task) : Describes pipeline (.cycle path)
  | malformedAmount {before after : List Step} {step : Step} {options : KubernetesOptions}
      {amount : KubernetesOptions.Amount} {value : String} (hcommanded : pipeline.Commanded)
      (hresolved : pipeline.Resolved) (hacyclic : Acyclic pipeline.DependsOn)
      (hsplit : pipeline.steps = before ++ step :: after)
      (hbefore : ∀ earlier ∈ before, earlier.WellFormed pipeline.defaults)
      (hcounts : step.Counts pipeline.defaults options)
      (hmalformed : options.malformed? = some (amount, value)) :
      Describes pipeline (.malformedAmount step.name amount value)

/-! ## Commands -/

variable {pipeline : Pipeline}

theorem missingCommand?_eq_none_iff : pipeline.missingCommand? = none ↔ pipeline.Commanded := by
  rw [missingCommand?, Option.map_eq_none_iff, List.find?_eq_none, Commanded]
  apply forall₂_congr
  intro step _
  rw [Step.commanded_iff, Bool.not_eq_true]

theorem describes_missingCommand {problem : Invalid} (h : pipeline.missingCommand? = some problem) :
    pipeline.Describes problem := by
  rw [missingCommand?] at h
  obtain ⟨step, hfound, rfl⟩ := Option.map_eq_some_iff.mp h
  obtain ⟨hstep, before, after, hsplit, hbefore⟩ := List.find?_eq_some_iff_append.mp hfound
  refine .missingCommand hsplit (fun earlier hearlier => ?_) fun hcommanded => ?_
  · rw [Step.commanded_iff]
    exact Bool.not_eq_true' _ ▸ hbefore earlier hearlier
  · rw [Step.commanded_iff, hstep] at hcommanded
    cases hcommanded

/-! ## Unknown dependencies -/

theorem mem_requirements {requirement : String × String} :
    requirement ∈ pipeline.requirements ↔ ∃ step ∈ pipeline.steps, step.name = requirement.1 ∧
      requirement.2 ∈ step.dependencies := by
  obtain ⟨name, dependency⟩ := requirement
  simp only [requirements, List.mem_flatMap, List.mem_map, Prod.mk.injEq]
  constructor
  · rintro ⟨step, hstep, _, hdependency, rfl, rfl⟩
    exact ⟨step, hstep, rfl, hdependency⟩
  · rintro ⟨step, hstep, rfl, hdependency⟩
    exact ⟨step, hstep, dependency, hdependency, rfl, rfl⟩

theorem unknownDependency?_eq_none_iff (h : pipeline.Indexed) :
    pipeline.unknownDependency? = none ↔ pipeline.Resolved := by
  rw [unknownDependency?, Option.map_eq_none_iff, List.find?_eq_none, Resolved]
  constructor
  · intro hall step hstep dependency hdependency
    have hknown := hall (step.name, dependency)
      (mem_requirements.mpr ⟨step, hstep, rfl, hdependency⟩)
    exact h.contains_iff.mp (by simpa using hknown)
  · intro hall requirement hrequirement
    obtain ⟨step, hstep, -, hdependency⟩ := mem_requirements.mp hrequirement
    simpa using h.contains_iff.mpr (hall step hstep requirement.2 hdependency)

theorem describes_unknownDependency (h : pipeline.Indexed) (hcommanded : pipeline.Commanded)
    {problem : Invalid} (hproblem : pipeline.unknownDependency? = some problem) :
    pipeline.Describes problem := by
  rw [unknownDependency?] at hproblem
  obtain ⟨⟨task, dependency⟩, hfound, rfl⟩ := Option.map_eq_some_iff.mp hproblem
  obtain ⟨hunknown, before, after, hsplit, hbefore⟩ := List.find?_eq_some_iff_append.mp hfound
  refine .unknownDependency hcommanded hsplit (fun earlier hearlier => ?_) fun hmem => ?_
  · exact h.contains_iff.mp (by simpa using hbefore earlier hearlier)
  · have hnot : (!pipeline.contains dependency) = true := hunknown
    rw [h.contains_iff.mpr hmem] at hnot
    cases hnot

/-! ## Cycles -/

theorem reachable_graph (pipeline : Pipeline) : pipeline.graph.Reachable :=
  TaskGraph.reachable_ofList _

/-- With distinct names every step is registered in the graph. -/
theorem nodes_graph (h : pipeline.Indexed) :
    pipeline.graph.nodes = pipeline.steps.map fun step => ⟨step.name, step.dependencies⟩ := by
  have hnames : ((pipeline.steps.map fun step => (step.name, step.dependencies)).map
      Prod.fst).Nodup := by
    rw [List.map_map]
    exact h.nodup
  rw [graph, TaskGraph.nodes_ofList hnames, List.map_map]
  rfl

theorem names_graph (h : pipeline.Indexed) : pipeline.graph.names = pipeline.names := by
  rw [TaskGraph.names, nodes_graph h, List.map_map]
  rfl

theorem dependsOn_graph_iff (h : pipeline.Indexed) (hresolved : pipeline.Resolved)
    {name dependency : String} :
    pipeline.graph.DependsOn name dependency ↔ pipeline.DependsOn name dependency := by
  rw [TaskGraph.DependsOn, names_graph h, nodes_graph h]
  constructor
  · rintro ⟨node, hnode, hname, hdependency, -⟩
    obtain ⟨step, hstep, rfl⟩ := List.mem_map.mp hnode
    exact ⟨step, hstep, hname, hdependency⟩
  · rintro ⟨step, hstep, hname, hdependency⟩
    exact ⟨_, List.mem_map_of_mem hstep, hname, hdependency,
      hresolved step hstep dependency hdependency⟩

theorem cycle?_eq_none_iff (h : pipeline.Indexed) (hresolved : pipeline.Resolved) :
    pipeline.cycle? = none ↔ Acyclic pipeline.DependsOn := by
  have hgraph := pipeline.reachable_graph.numbers
  have hrelation : pipeline.graph.DependsOn = pipeline.DependsOn := by
    ext name dependency
    exact dependsOn_graph_iff h hresolved
  rw [cycle?, Option.map_eq_none_iff, ← hrelation]
  exact TaskGraph.findCycle_eq_none_iff hgraph

theorem describes_cycle (h : pipeline.Indexed) (hcommanded : pipeline.Commanded)
    (hresolved : pipeline.Resolved) {problem : Invalid}
    (hproblem : pipeline.cycle? = some problem) : pipeline.Describes problem := by
  have hgraph := pipeline.reachable_graph.numbers
  obtain ⟨path, hpath, rfl⟩ := Option.map_eq_some_iff.mp hproblem
  have hcycle : IsCycle pipeline.DependsOn path :=
    (TaskGraph.isCycle_of_findCycle hgraph hpath).mono fun _ _ =>
      (dependsOn_graph_iff h hresolved).mp
  have hstart : path.head? = some (Invalid.cycle path).task := by
    cases path with
    | nil => exact absurd hcycle.two_le_length (by simp)
    | cons name rest => rfl
  exact .cycle hcommanded hresolved hcycle hstart (hcycle.closed ▸ hstart)

/-! ## Amounts -/

/-- The first malformed amount that is found for a step. -/
theorem malformed?_step (step : Step) :
    (do
      let (amount, value) ← (← pipeline.checkedOptions step).malformed?
      pure (Invalid.malformedAmount step.name amount value)) =
      ((pipeline.checkedOptions step).bind KubernetesOptions.malformed?).map
        fun (amount, value) => .malformedAmount step.name amount value := by
  cases pipeline.checkedOptions step with
  | none => rfl
  | some options =>
      rw [Option.bind_some]
      cases hmalformed : options.malformed? with
      | none => simp [hmalformed]
      | some found => simp [hmalformed]

theorem wellFormed_iff {step : Step} :
    step.WellFormed pipeline.defaults ↔
      (pipeline.checkedOptions step).bind KubernetesOptions.malformed? = none := by
  rw [Option.bind_eq_none_iff, Step.WellFormed]
  apply forall_congr'
  intro options
  rw [checkedOptions_eq_some_iff]

theorem malformedAmount?_eq_none_iff : pipeline.malformedAmount? = none ↔ pipeline.WellFormed := by
  rw [malformedAmount?, List.findSome?_eq_none_iff, WellFormed]
  apply forall₂_congr
  intro step _
  rw [malformed?_step, Option.map_eq_none_iff, wellFormed_iff]

theorem describes_malformedAmount (hcommanded : pipeline.Commanded)
    (hresolved : pipeline.Resolved) (hacyclic : Acyclic pipeline.DependsOn) {problem : Invalid}
    (hproblem : pipeline.malformedAmount? = some problem) : pipeline.Describes problem := by
  rw [malformedAmount?] at hproblem
  obtain ⟨before, step, after, hsplit, hfound, hbefore⟩ :=
    List.findSome?_eq_some_iff.mp hproblem
  rw [malformed?_step] at hfound
  obtain ⟨⟨amount, value⟩, hmalformed, rfl⟩ := Option.map_eq_some_iff.mp hfound
  obtain ⟨options, hchecked, hamount⟩ := Option.bind_eq_some_iff.mp hmalformed
  refine .malformedAmount hcommanded hresolved hacyclic hsplit (fun earlier hearlier => ?_)
    (checkedOptions_eq_some_iff.mp hchecked) hamount
  have hnone := hbefore earlier hearlier
  rw [malformed?_step, Option.map_eq_none_iff] at hnone
  exact wellFormed_iff.mpr hnone

/-! ## All checks -/

theorem problem?_eq_none_iff (h : pipeline.Indexed) :
    pipeline.problem? = none ↔ pipeline.Valid := by
  rw [problem?, Option.or_eq_none_iff, Option.or_eq_none_iff, Option.or_eq_none_iff,
    missingCommand?_eq_none_iff, unknownDependency?_eq_none_iff h, malformedAmount?_eq_none_iff]
  constructor
  · rintro ⟨hcommanded, hresolved, hcycle, hwellFormed⟩
    exact ⟨hcommanded, hresolved, (cycle?_eq_none_iff h hresolved).mp hcycle, hwellFormed⟩
  · rintro ⟨hcommanded, hresolved, hacyclic, hwellFormed⟩
    exact ⟨hcommanded, hresolved, (cycle?_eq_none_iff h hresolved).mpr hacyclic, hwellFormed⟩

theorem validate_eq_ok_iff (h : pipeline.Indexed) :
    pipeline.validate = .ok () ↔ pipeline.Valid := by
  rw [validate, ← problem?_eq_none_iff h]
  cases pipeline.problem? with
  | none => simp
  | some problem => simp

/-- The checks come in the order of the conditions, and the first problem is reported. -/
theorem describes_problem (h : pipeline.Indexed) {problem : Invalid}
    (hproblem : pipeline.problem? = some problem) : pipeline.Describes problem := by
  rw [problem?] at hproblem
  cases hcommand : pipeline.missingCommand? with
  | some missing =>
      rw [hcommand, Option.some_or] at hproblem
      exact describes_missingCommand (hcommand.trans hproblem)
  | none =>
      have hcommanded : pipeline.Commanded := missingCommand?_eq_none_iff.mp hcommand
      rw [hcommand, Option.none_or] at hproblem
      cases hunknown : pipeline.unknownDependency? with
      | some unknown =>
          rw [hunknown, Option.some_or] at hproblem
          exact describes_unknownDependency h hcommanded (hunknown.trans hproblem)
      | none =>
          have hresolved : pipeline.Resolved := (unknownDependency?_eq_none_iff h).mp hunknown
          rw [hunknown, Option.none_or] at hproblem
          cases hcycle : pipeline.cycle? with
          | some cycle =>
              rw [hcycle, Option.some_or] at hproblem
              exact describes_cycle h hcommanded hresolved (hcycle.trans hproblem)
          | none =>
              have hacyclic : Acyclic pipeline.DependsOn :=
                (cycle?_eq_none_iff h hresolved).mp hcycle
              rw [hcycle, Option.none_or] at hproblem
              exact describes_malformedAmount hcommanded hresolved hacyclic hproblem

/-- Validation passes exactly the valid pipelines. What it reports of another one is the first of
the four conditions that is violated, with the first offender in order of declaration, whatever
else is wrong. -/
theorem validate_exact {pipeline : Pipeline} (h : pipeline.Reachable) :
    (pipeline.validate = .ok () ↔ pipeline.Valid) ∧
      ∀ problem, pipeline.validate = .error problem → pipeline.Describes problem := by
  rw [validate]
  cases hproblem : pipeline.problem? with
  | none => exact ⟨by simpa using (problem?_eq_none_iff h.indexed).mp hproblem, by simp⟩
  | some problem =>
      have hinvalid : ¬ pipeline.Valid := by
        intro hvalid
        rw [(problem?_eq_none_iff h.indexed).mpr hvalid] at hproblem
        cases hproblem
      refine ⟨by simpa using hinvalid, ?_⟩
      rintro _ ⟨⟩
      exact describes_problem h.indexed hproblem

/-- Two tasks that wait for each other, the second with a malformed amount: the cycle comes
first. -/
theorem validate_mutual_wait :
    let pipeline := (withDefaults none).afterCalls
      [.addTask "a", .setTask 0 (.run "make"), .setTask 0 (.after ["b"]),
        .addTask "b", .setTask 1 (.run "make"), .setTask 1 (.after ["a"]),
        .setTask 1 (.cluster ⟨"lots", "", 0, ""⟩)]
    pipeline.Reachable ∧ pipeline.validate = .error (.cycle ["a", "b", "a"]) ∧
      pipeline.Describes (.cycle ["a", "b", "a"]) := by
  intro pipeline
  have hreachable : pipeline.Reachable := (Reachable.start none).afterCalls _
  have hreported : pipeline.validate = .error (.cycle ["a", "b", "a"]) := by decide +kernel
  exact ⟨hreachable, hreported, (validate_exact hreachable).2 _ hreported⟩

end Pipeline

end CiPipeline
