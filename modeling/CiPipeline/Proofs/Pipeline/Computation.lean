import CiPipeline.Pipeline.Basic

/-!
# Computations on a pipeline

What a computation comes to, part by part. A computation that checks first, and changes something
only when nothing can be refused any more, leaves no trace where it is refused.
-/

namespace CiPipeline

namespace Build

@[simp] theorem perform_get (pipeline : Pipeline) :
    (get : Build Pipeline).perform pipeline = (.ok pipeline, pipeline) := rfl

@[simp] theorem perform_modify (change : Pipeline → Pipeline) (pipeline : Pipeline) :
    (modify change : Build Unit).perform pipeline = (.ok (), change pipeline) := rfl

@[simp] theorem perform_ofExcept (result : Except Refusal α) (pipeline : Pipeline) :
    (ofExcept result).perform pipeline = (result, pipeline) := by
  cases result <;> rfl

@[simp] theorem perform_refuseIf (wrong : Bool) (refusal : Refusal) (pipeline : Pipeline) :
    (refuseIf wrong refusal).perform pipeline =
      (if wrong then .error refusal else .ok (), pipeline) := by
  cases wrong <;> rfl

/-- What comes after a computation is performed only if that was not refused. -/
theorem perform_bind (first : Build α) (rest : α → Build β) (pipeline : Pipeline) :
    (first >>= rest).perform pipeline =
      match first.perform pipeline with
      | (.ok value, next) => (rest value).perform next
      | (.error refusal, next) => (.error refusal, next) := by
  rw [perform, ExceptT.run_bind]
  change StateT.bind _ _ pipeline = _
  rw [StateT.bind]
  rcases hfirst : first.perform pipeline with ⟨_ | value, next⟩
  · rw [perform] at hfirst
    rw [hfirst]
    rfl
  · rw [perform] at hfirst
    rw [hfirst]
    rfl

/-- A refusal that is caught leaves what came before it in place. -/
theorem perform_tryCatch (first : Build α) (rest : Refusal → Build α) (pipeline : Pipeline) :
    (tryCatch first rest).perform pipeline =
      match first.perform pipeline with
      | (.ok value, next) => (.ok value, next)
      | (.error refusal, next) => (rest refusal).perform next := by
  rw [perform, ExceptT.run_tryCatch]
  change StateT.bind _ _ pipeline = _
  rw [StateT.bind]
  rcases hfirst : first.perform pipeline with ⟨_ | value, next⟩
  · rw [perform] at hfirst
    rw [hfirst]
    rfl
  · rw [perform] at hfirst
    rw [hfirst]
    rfl

/-- What is made of the answer changes neither the outcome otherwise nor the pipeline. -/
theorem perform_map (give : α → β) (call : Build α) (pipeline : Pipeline) :
    (give <$> call).perform pipeline =
      ((call.perform pipeline).1.map give, (call.perform pipeline).2) := by
  rw [← bind_pure_comp, perform_bind]
  rcases call.perform pipeline with ⟨_ | value, next⟩
  · rfl
  · rfl

theorem perform_discard (call : Build α) (pipeline : Pipeline) :
    (discard call).perform pipeline =
      ((call.perform pipeline).1.map fun _ => (), (call.perform pipeline).2) :=
  perform_map (fun _ => ()) call pipeline

/-! ## Checks first -/

/-- The computation may be refused, but it changes nothing. -/
def Checks (computation : Build α) : Prop :=
  ∀ pipeline, (computation.perform pipeline).2 = pipeline

def NeverRefused (computation : Build α) : Prop :=
  ∀ pipeline, ∃ value next, computation.perform pipeline = (.ok value, next)

/-- Where the computation is refused, the pipeline is what it was. -/
def LeavesNoTrace (computation : Build α) : Prop :=
  ∀ pipeline refusal next,
    computation.perform pipeline = (.error refusal, next) → next = pipeline

theorem checks_get : (get : Build Pipeline).Checks := fun _ => rfl

theorem checks_ofExcept (result : Except Refusal α) : (ofExcept result).Checks := by
  intro pipeline
  rw [perform_ofExcept]

theorem checks_refuseIf (wrong : Bool) (refusal : Refusal) : (refuseIf wrong refusal).Checks := by
  intro pipeline
  rw [perform_refuseIf]

theorem neverRefused_pure (value : α) : (pure value : Build α).NeverRefused :=
  fun pipeline => ⟨value, pipeline, rfl⟩

theorem neverRefused_get : (get : Build Pipeline).NeverRefused :=
  fun pipeline => ⟨pipeline, pipeline, rfl⟩

theorem neverRefused_modify (change : Pipeline → Pipeline) :
    (modify change : Build Unit).NeverRefused :=
  fun pipeline => ⟨(), change pipeline, rfl⟩

theorem NeverRefused.bind {first : Build α} {rest : α → Build β} (hfirst : first.NeverRefused)
    (hrest : ∀ value, (rest value).NeverRefused) : (first >>= rest).NeverRefused := by
  intro pipeline
  obtain ⟨value, between, hok⟩ := hfirst pipeline
  rw [perform_bind, hok]
  exact hrest value between

theorem NeverRefused.forIn {items : List α} {build : α → Build Unit}
    (h : ∀ item ∈ items, (build item).NeverRefused) :
    (forIn items PUnit.unit fun item _ => do
      build item
      pure (ForInStep.yield PUnit.unit) : Build PUnit).NeverRefused := by
  induction items with
  | nil => exact neverRefused_pure ()
  | cons item items ih =>
      rw [List.forall_mem_cons] at h
      rw [List.forIn_cons]
      exact (h.1.bind fun _ => neverRefused_pure _).bind fun next => by
        cases next with
        | done value => exact neverRefused_pure value
        | yield value => exact ih h.2

theorem NeverRefused.leavesNoTrace {computation : Build α} (h : computation.NeverRefused) :
    computation.LeavesNoTrace := by
  intro pipeline refusal next hrefused
  obtain ⟨value, last, hok⟩ := h pipeline
  cases hok.symm.trans hrefused

theorem leavesNoTrace_throw (refusal : Refusal) : (throw refusal : Build α).LeavesNoTrace := by
  intro pipeline other next hrefused
  cases hrefused
  rfl

/-- A check that is passed changes nothing, so that what comes after it starts from the same
pipeline. -/
theorem Checks.bind {first : Build α} {rest : α → Build β} (hfirst : first.Checks)
    (hrest : ∀ value, (rest value).LeavesNoTrace) : (first >>= rest).LeavesNoTrace := by
  intro pipeline refusal next hrefused
  have hsame := hfirst pipeline
  rw [perform_bind] at hrefused
  rcases houtcome : first.perform pipeline with ⟨other | value, between⟩
  · rw [houtcome] at hrefused hsame
    cases hrefused
    exact hsame
  · rw [houtcome] at hrefused hsame
    obtain rfl : between = pipeline := hsame
    exact hrest value between refusal next hrefused

/-- Only the first part can be refused, so that nothing has happened yet when it is. -/
theorem LeavesNoTrace.bind {first : Build α} {rest : α → Build β} (hfirst : first.LeavesNoTrace)
    (hrest : ∀ value, (rest value).NeverRefused) : (first >>= rest).LeavesNoTrace := by
  intro pipeline refusal next hrefused
  rw [perform_bind] at hrefused
  rcases houtcome : first.perform pipeline with ⟨other | value, between⟩
  · rw [houtcome] at hrefused
    cases hrefused
    exact hfirst pipeline refusal next houtcome
  · rw [houtcome] at hrefused
    obtain ⟨result, last, hok⟩ := hrest value between
    cases hok.symm.trans hrefused

/-- What is made of the answer does not matter. -/
theorem LeavesNoTrace.map {call : Build α} (h : call.LeavesNoTrace) (give : α → β) :
    (give <$> call).LeavesNoTrace := by
  rw [← bind_pure_comp]
  exact h.bind fun value => neverRefused_pure (give value)

end Build

end CiPipeline
