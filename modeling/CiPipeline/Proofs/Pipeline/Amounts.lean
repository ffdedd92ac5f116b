import CiPipeline.Proofs.Pipeline.Projection
import CiPipeline.Proofs.Pipeline.Validation

/-!
# Amounts that are checked and amounts that are asked for

Validation looks at the options that count for a step, and the engine is told what the step asks of
the cluster. Both come to the same amounts but for one kind of step: a task that passes settings
through as they stand and has no options of its own asks for nothing else, and is still checked for
the defaults. Main statement: which amounts validation reports, in terms of what is asked for.
-/

namespace CiPipeline

/-! ## Requests with malformed amounts -/

/-- An amount is given and not well formed. -/
inductive ClusterRequest.Malformed (request : ClusterRequest) : Prop where
  | memory {value : String} (hgiven : request.memory = some value)
      (hvalue : Quantity.isMemory value.toList = false)
  | cpu {value : String} (hgiven : request.cpu = some value)
      (hvalue : Quantity.isProcessor value.toList = false)

theorem given?_eq_some_iff {text given : String} :
    given? text = some given ↔ text = given ∧ given ≠ "" := by
  rw [given?, nonempty?, Option.filter_eq_some_iff, Option.some_inj]
  constructor
  · rintro ⟨rfl, hgiven⟩
    exact ⟨rfl, by simpa using hgiven⟩
  · rintro ⟨rfl, hgiven⟩
    exact ⟨rfl, by simpa using hgiven⟩

namespace KubernetesOptions

variable {options : KubernetesOptions}

/-- An amount that is not well formed is not empty either, since that would not count as given. -/
theorem malformed?_eq_none_iff :
    options.malformed? = none ↔
      (options.memory ≠ "" → Quantity.isMemory options.memory.toList = true) ∧
      (options.cpu ≠ "" → Quantity.isProcessor options.cpu.toList = true) := by
  rw [malformed?]
  by_cases hmemory : (!options.memory.isEmpty && !Quantity.isMemory options.memory.toList) = true
  · rw [if_pos hmemory]
    simp only [Bool.and_eq_true, Bool.not_eq_true'] at hmemory
    simp_all
  · rw [if_neg hmemory]
    by_cases hcpu : (!options.cpu.isEmpty && !Quantity.isProcessor options.cpu.toList) = true
    · rw [if_pos hcpu]
      simp_all
    · rw [if_neg hcpu]
      simp_all

/-- Options have a malformed amount exactly if the request for them has one. -/
theorem malformed?_ne_none_iff :
    options.malformed? ≠ none ↔
      ∃ request, options.request? = some request ∧ request.Malformed := by
  rw [ne_eq, malformed?_eq_none_iff, request?]
  constructor
  · intro hnot
    by_cases hmemory : options.memory ≠ "" ∧ Quantity.isMemory options.memory.toList = false
    · have hgiven : given? options.memory = some options.memory :=
        given?_eq_some_iff.mpr ⟨rfl, hmemory.1⟩
      refine ⟨_, if_neg fun hunset => ?_, .memory hgiven hmemory.2⟩
      cases hgiven.symm.trans (congrArg ClusterRequest.memory hunset)
    · have hcpu : options.cpu ≠ "" ∧ Quantity.isProcessor options.cpu.toList = false := by
        by_contra hother
        exact hnot ⟨by simpa using hmemory, by simpa using hother⟩
      have hgiven : given? options.cpu = some options.cpu :=
        given?_eq_some_iff.mpr ⟨rfl, hcpu.1⟩
      refine ⟨_, if_neg fun hunset => ?_, .cpu hgiven hcpu.2⟩
      cases hgiven.symm.trans (congrArg ClusterRequest.cpu hunset)
  · rintro ⟨request, hrequest, hmalformed⟩ ⟨hmemory, hcpu⟩
    obtain ⟨-, ⟨⟩⟩ := Option.ite_none_left_eq_some.mp hrequest
    cases hmalformed with
    | memory hgiven hvalue =>
        obtain ⟨rfl, hnonempty⟩ := given?_eq_some_iff.mp hgiven
        cases hvalue.symm.trans (hmemory hnonempty)
    | cpu hgiven hvalue =>
        obtain ⟨rfl, hnonempty⟩ := given?_eq_some_iff.mp hgiven
        cases hvalue.symm.trans (hcpu hnonempty)

@[simp] theorem malformed?_withoutRaw : options.withoutRaw.malformed? = options.malformed? := rfl

/-- Settings that are passed through have no part in the amounts. -/
@[simp] theorem malformed?_override (raw : String) :
    (options.override raw).malformed? = options.malformed? := by
  rw [override]
  split
  · rfl
  · rfl

end KubernetesOptions

/-! ## What a step asks for -/

/-- The engine is told a malformed amount for the step. -/
def Step.AsksMalformed (defaults : Option KubernetesOptions) (step : Step) : Prop :=
  ∃ request, (step.entry defaults).cluster = some request ∧ request.Malformed

theorem Step.asksMalformed_iff {defaults : Option KubernetesOptions} {step : Step} :
    step.AsksMalformed defaults ↔
      (askedOptions? defaults step.settings).bind KubernetesOptions.malformed? ≠ none := by
  have hcluster : (step.entry defaults).cluster = clusterRequest? defaults step.settings := rfl
  rw [AsksMalformed, hcluster, clusterRequest?_eq]
  cases askedOptions? defaults step.settings with
  | none => simp
  | some options => exact KubernetesOptions.malformed?_ne_none_iff.symm

/-- The step has settings that are passed through and no options of its own. -/
def Step.OnlyPassesThrough (step : Step) : Prop :=
  step.settings.clusterRaw ≠ "" ∧ step.settings.ownCluster? = none

namespace Pipeline

/-- The step asks for a malformed amount, or only passes settings through where the defaults have
one. -/
def Objectionable (pipeline : Pipeline) (step : Step) : Prop :=
  step.AsksMalformed pipeline.defaults ∨
    step.OnlyPassesThrough ∧ pipeline.defaults.bind KubernetesOptions.malformed? ≠ none

theorem not_wellFormed_iff {pipeline : Pipeline} {step : Step} :
    ¬ step.WellFormed pipeline.defaults ↔ pipeline.Objectionable step := by
  rw [wellFormed_iff, checkedOptions, Objectionable, Step.asksMalformed_iff, askedOptions?]
  cases hown : step.settings.ownCluster? with
  | some own =>
      have hnot : ¬ step.OnlyPassesThrough := by
        rintro ⟨-, hnone⟩
        cases hown.symm.trans hnone
      simp [hnot]
  | none =>
      rw [Option.none_or]
      by_cases hraw : step.settings.clusterRaw.isEmpty = true
      · have hnot : ¬ step.OnlyPassesThrough := fun hthrough => hthrough.1 (by simpa using hraw)
        dsimp only
        rw [if_pos hraw]
        cases pipeline.defaults with
        | none => simp [hnot]
        | some options => simp [hnot]
      · have honly : step.OnlyPassesThrough := ⟨by simpa using hraw, hown⟩
        have hunset : KubernetesOptions.unset.malformed? = none := rfl
        dsimp only
        rw [if_neg hraw]
        simp [honly, hunset]

/-! ## What validation reports -/

variable {pipeline : Pipeline}

theorem validate_eq_error_iff {problem : Invalid} :
    pipeline.validate = .error problem ↔ pipeline.problem? = some problem := by
  rw [validate]
  cases pipeline.problem? with
  | none => simp
  | some other => simp

/-- The amounts decide once the other checks have passed. -/
theorem problem?_eq_malformedAmount? (h : pipeline.Indexed) (hcommanded : pipeline.Commanded)
    (hresolved : pipeline.Resolved) (hacyclic : Acyclic pipeline.DependsOn) :
    pipeline.problem? = pipeline.malformedAmount? := by
  rw [problem?, missingCommand?_eq_none_iff.mpr hcommanded,
    (unknownDependency?_eq_none_iff h).mpr hresolved,
    (cycle?_eq_none_iff h hresolved).mpr hacyclic]
  rfl

/-- The first objectionable step is reported. -/
theorem malformedAmount?_eq_some_iff {name : String} :
    (∃ amount value, pipeline.malformedAmount? = some (.malformedAmount name amount value)) ↔
      ∃ before step after, pipeline.steps = before ++ step :: after ∧ step.name = name ∧
        (∀ earlier ∈ before, ¬ pipeline.Objectionable earlier) ∧ pipeline.Objectionable step := by
  have hchecked (step : Step) : (pipeline.checkedOptions step).bind
      KubernetesOptions.malformed? = none ↔ ¬ pipeline.Objectionable step := by
    rw [← not_wellFormed_iff, Classical.not_not, wellFormed_iff]
  simp only [malformedAmount?, malformed?_step, List.findSome?_eq_some_iff]
  constructor
  · rintro ⟨amount, value, before, step, after, hsplit, hfound, hbefore⟩
    obtain ⟨⟨found, text⟩, hmalformed, hproblem⟩ := Option.map_eq_some_iff.mp hfound
    cases hproblem
    refine ⟨before, step, after, hsplit, rfl, fun earlier hearlier => ?_, ?_⟩
    · exact (hchecked earlier).mp (Option.map_eq_none_iff.mp (hbefore earlier hearlier))
    · by_contra hnot
      cases hmalformed.symm.trans ((hchecked step).mpr hnot)
  · rintro ⟨before, step, after, hsplit, rfl, hbefore, hstep⟩
    cases hmalformed : (pipeline.checkedOptions step).bind KubernetesOptions.malformed? with
    | none => exact absurd hstep ((hchecked step).mp hmalformed)
    | some found =>
        refine ⟨found.1, found.2, before, step, after, hsplit, by rw [hmalformed]; rfl, ?_⟩
        exact fun earlier hearlier =>
          Option.map_eq_none_iff.mpr ((hchecked earlier).mpr (hbefore earlier hearlier))

/-- An amount is reported only where commands and dependencies are in order. -/
theorem orderly_of_malformedAmount (h : pipeline.Indexed) {name : String}
    {amount : KubernetesOptions.Amount} {value : String}
    (hreported : pipeline.validate = .error (.malformedAmount name amount value)) :
    pipeline.Commanded ∧ pipeline.Resolved ∧ Acyclic pipeline.DependsOn := by
  have hdescribes := describes_problem h (validate_eq_error_iff.mp hreported)
  cases hdescribes with
  | malformedAmount hcommanded hresolved hacyclic => exact ⟨hcommanded, hresolved, hacyclic⟩

/-- Where commands and dependencies are in order, validation reports an amount for the first step
that asks for a malformed one, or that only passes settings through where the defaults have one;
and it reports none if there is no such step. -/
theorem validate_amounts_exact (h : pipeline.Reachable) (hcommanded : pipeline.Commanded)
    (hresolved : pipeline.Resolved) (hacyclic : Acyclic pipeline.DependsOn) (name : String) :
    (∃ amount value, pipeline.validate = .error (.malformedAmount name amount value)) ↔
      ∃ before step after, pipeline.steps = before ++ step :: after ∧ step.name = name ∧
        (∀ earlier ∈ before, ¬ pipeline.Objectionable earlier) ∧ pipeline.Objectionable step := by
  simp only [validate_eq_error_iff,
    problem?_eq_malformedAmount? h.indexed hcommanded hresolved hacyclic]
  exact malformedAmount?_eq_some_iff

/-- The first of two tasks is in order, the second one asks for processors in words. -/
theorem validate_amounts_of_second_task :
    let pipeline := (withDefaults none).afterCalls
      [.addTask "a", .setTask 0 (.run "make"), .setTask 0 (.cluster ⟨"1Gi", "", 0, ""⟩),
        .addTask "b", .setTask 1 (.run "make"), .setTask 1 (.cluster ⟨"", "lots", 0, ""⟩)]
    pipeline.Reachable ∧ pipeline.Commanded ∧ pipeline.Resolved ∧ Acyclic pipeline.DependsOn ∧
      pipeline.validate = .error (.malformedAmount "b" .cpu "lots") ∧
      ∃ before step after, pipeline.steps = before ++ step :: after ∧ step.name = "b" ∧
        (∀ earlier ∈ before, ¬ pipeline.Objectionable earlier) ∧ pipeline.Objectionable step := by
  intro pipeline
  have hreachable : pipeline.Reachable := (Reachable.start none).afterCalls _
  have hreported : pipeline.validate = .error (.malformedAmount "b" .cpu "lots") := by
    decide +kernel
  obtain ⟨hcommanded, hresolved, hacyclic⟩ :=
    orderly_of_malformedAmount hreachable.indexed hreported
  have hfirst := (validate_amounts_exact hreachable hcommanded hresolved hacyclic "b").mp
    ⟨.cpu, "lots", hreported⟩
  exact ⟨hreachable, hcommanded, hresolved, hacyclic, hreported, hfirst⟩

/-- A task that only passes settings through is refused for defaults that it does not ask for. -/
theorem validate_amounts_not_asked_for :
    let pipeline := (withDefaults (some ⟨"lots", "", 0, ""⟩)).afterCalls
      [.addTask "a", .setTask 0 (.run "make"), .setTask 0 (.clusterRaw "{}")]
    pipeline.Reachable ∧ pipeline.Commanded ∧ pipeline.Resolved ∧ Acyclic pipeline.DependsOn ∧
      pipeline.validate = .error (.malformedAmount "a" .memory "lots") ∧
      ∀ step ∈ pipeline.steps, ¬ step.AsksMalformed pipeline.defaults := by
  intro pipeline
  have hreachable : pipeline.Reachable := (Reachable.start _).afterCalls _
  have hreported : pipeline.validate = .error (.malformedAmount "a" .memory "lots") := by
    decide +kernel
  obtain ⟨hcommanded, hresolved, hacyclic⟩ :=
    orderly_of_malformedAmount hreachable.indexed hreported
  have hasked : ∀ step ∈ pipeline.steps,
      (step.entry pipeline.defaults).cluster = some ⟨none, none, 0, some "{}"⟩ := by
    decide +kernel
  refine ⟨hreachable, hcommanded, hresolved, hacyclic, hreported, ?_⟩
  rintro step hstep ⟨request, hrequest, hmalformed⟩
  rw [hasked step hstep] at hrequest
  cases hrequest
  cases hmalformed with
  | memory hgiven => cases hgiven
  | cpu hgiven => cases hgiven

end Pipeline

end CiPipeline
