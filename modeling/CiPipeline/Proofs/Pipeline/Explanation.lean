import CiPipeline.Pipeline.Explanation
import CiPipeline.Proofs.Pipeline.Emission

/-!
# Explanation and document

A pipeline is told twice, to a reader and to the engine. Main statement: the line of a step is the
one that its entry in the document tells, but for a note behind it where the step has a condition
without text, which the document leaves out.
-/

namespace CiPipeline

/-! ## What the document tells -/

namespace TaskEntry

def work (entry : TaskEntry) : String :=
  match entry.gate with
  | some gate => "gate (" ++ Vocabulary.word gate.strategy ++ ")"
  | none => entry.command.getD ""

/-- The dependencies in words, unless the entry has none. -/
def sequel (entry : TaskEntry) : String :=
  if entry.dependencies.isEmpty then ""
  else " (after: " ++ ", ".intercalate entry.dependencies ++ ")"

/-- What the condition says of a run, unless the entry has none. -/
def note (context : Option RunContext) (entry : TaskEntry) : String :=
  match entry.condition with
  | some text => " [" ++ ((Condition.mk text).verdict context).label ++ ": " ++ text ++ "]"
  | none => ""

/-- The line of an entry. -/
def describe (context : Option RunContext) (entry : TaskEntry) : String :=
  "  " ++ entry.name ++ ": " ++ entry.work ++ entry.sequel ++ entry.note context

end TaskEntry

/-- The lines on the steps of a pipeline, below a line that counts them. -/
def report (lines : List String) : String :=
  let head := "Pipeline: " ++ toString lines.length ++ " tasks"
  String.join ((head :: lines).map (· ++ "\n"))

section Lengths

variable {α : Type} {short long : α → String}

theorem length_join_le (h : ∀ item, (short item).length ≤ (long item).length) (items : List α) :
    (String.join (items.map short)).length ≤ (String.join (items.map long)).length := by
  induction items with
  | nil => exact Nat.le_refl _
  | cons item items ih =>
      have hitem := h item
      simp only [List.map_cons, String.join_cons, String.length_append]
      omega

/-- Longer texts that are no longer when they are joined are not longer at all. -/
theorem length_eq_of_length_join_le (h : ∀ item, (short item).length ≤ (long item).length)
    {items : List α}
    (hjoined : (String.join (items.map long)).length ≤ (String.join (items.map short)).length) :
    ∀ item ∈ items, (long item).length = (short item).length := by
  induction items with
  | nil => exact List.forall_mem_nil _
  | cons item items ih =>
      have hitem := h item
      have hrest := length_join_le h items
      simp only [List.map_cons, String.join_cons, String.length_append] at hjoined
      rw [List.forall_mem_cons]
      exact ⟨by omega, ih (by omega)⟩

end Lengths

/-! ## Steps -/

/-- An empty text is no comparison. -/
theorem Condition.verdict_empty (context : Option RunContext) :
    (Condition.mk "").verdict context = .unknown := by
  cases context <;> rfl

namespace Step

/-- What stands behind the line that the document tells. -/
def blankNote (step : Step) : String :=
  if step.condition = some ⟨""⟩ then " [when: ]" else ""

theorem blankNote_eq_empty_iff (step : Step) :
    step.blankNote = "" ↔ step.condition ≠ some ⟨""⟩ := by
  rw [blankNote]
  split <;> simp_all

/-- A condition without text is not in the document. -/
theorem note_entry_append (defaults : Option KubernetesOptions) (context : Option RunContext)
    (step : Step) :
    (step.entry defaults).note context ++ step.blankNote =
      match step.condition with
      | none => ""
      | some condition =>
          " [" ++ (condition.verdict context).label ++ ": " ++ condition.text ++ "]" := by
  rw [TaskEntry.note, entry, blankNote]
  dsimp only
  cases step.condition with
  | none => rfl
  | some condition =>
      obtain ⟨text⟩ := condition
      by_cases hblank : text = ""
      · subst hblank
        dsimp only
        rw [Condition.verdict_empty]
        rfl
      · have hgiven : nonempty? (some text) = some text := by
          simpa [nonempty?] using hblank
        rw [Option.map_some, hgiven, if_neg (by simpa using hblank), String.append_empty]

/-- A step is described as its entry is, and a condition without text is noted behind. -/
theorem describe_eq (defaults : Option KubernetesOptions) (context : Option RunContext)
    (step : Step) :
    step.describe context = (step.entry defaults).describe context ++ step.blankNote := by
  rw [TaskEntry.describe, String.append_assoc, note_entry_append]
  rfl

end Step

/-! ## Pipelines -/

namespace Pipeline

variable {pipeline : Pipeline}

theorem describe_eq_report (pipeline : Pipeline) (context : Option RunContext) :
    pipeline.describe context = report (pipeline.steps.map (Step.describe context)) := by
  rw [describe, report, List.length_map]

/-- Some line is longer than the document tells, unless all conditions have a text. -/
theorem describe_eq_report_iff (context : Option RunContext) :
    pipeline.describe context = report (pipeline.project.tasks.map (TaskEntry.describe context)) ↔
      ∀ step ∈ pipeline.steps, step.condition ≠ some ⟨""⟩ := by
  rw [describe_eq_report, project, List.map_map]
  constructor
  · intro hsame step hstep
    have hlonger : ∀ step : Step,
        ((step.entry pipeline.defaults).describe context ++ "\n").length ≤
          (step.describe context ++ "\n").length := by
      intro step
      rw [step.describe_eq pipeline.defaults]
      simp only [String.length_append]
      omega
    have hlength := congrArg String.length hsame
    simp only [report, List.length_map, List.map_cons, List.map_map, String.join_cons,
      String.length_append] at hlength
    have hline := length_eq_of_length_join_le hlonger
      (Nat.le_of_add_le_add_left (Nat.le_of_eq hlength)) step hstep
    rw [step.describe_eq pipeline.defaults] at hline
    simp only [String.length_append] at hline
    rw [← Step.blankNote_eq_empty_iff, ← String.length_eq_zero_iff]
    omega
  · intro hgiven
    congr 1
    apply List.map_congr_left
    intro step hstep
    rw [Step.describe_eq pipeline.defaults, (step.blankNote_eq_empty_iff).mpr (hgiven step hstep),
      String.append_empty]
    rfl

/-- For a valid pipeline a reader is told the lines of the document, in its order. Behind the line
of a step whose condition has no text, which the document leaves out, stands a note. -/
theorem explanation_follows_document (h : pipeline.validate = .ok ())
    (context : Option RunContext) :
    ∃ document, pipeline.document = .ok document ∧
      document.tasks.map TaskEntry.name = pipeline.names ∧
      pipeline.explain context = .ok (report
        (List.zipWith (fun entry step => entry.describe context ++ step.blankNote)
          document.tasks pipeline.steps)) ∧
      (pipeline.explain context =
          .ok (report (document.tasks.map (TaskEntry.describe context))) ↔
        ∀ step ∈ pipeline.steps, step.condition ≠ some ⟨""⟩) := by
  refine ⟨pipeline.project, document_eq_ok_iff.mpr ⟨h, rfl⟩, names_project pipeline, ?_, ?_⟩
  · have hlines : List.zipWith (fun entry step => entry.describe context ++ step.blankNote)
        pipeline.project.tasks pipeline.steps = pipeline.steps.map (Step.describe context) := by
      rw [project, List.zipWith_map_left, List.zipWith_self]
      apply List.map_congr_left
      intro step _
      exact (step.describe_eq pipeline.defaults context).symm
    rw [hlines, explain, whenValid_of_valid h, describe_eq_report]
  · rw [explain, whenValid_of_valid h, Except.ok.injEq, describe_eq_report_iff]

/-- A task behind a gate, with a condition that does not hold of the run. -/
theorem explanation_of_gated_task :
    let pipeline := (withDefaults none).afterCalls
      [.addTask "test", .setTask 0 (.run "make test"), .addGate "approve",
        .setGate 1 (.after ["test"]), .addTask "deploy", .setTask 2 (.run "make deploy"),
        .setTask 2 (.after ["approve", "test"]), .setTask 2 (.condition ⟨"branch == 'main'"⟩)]
    let context : Option RunContext := some ⟨"next", "", "push", true⟩
    pipeline.validate = .ok () ∧ ∃ document, pipeline.document = .ok document ∧
      pipeline.explain context = .ok (report (document.tasks.map (TaskEntry.describe context))) ∧
      document.tasks.map (TaskEntry.describe context) =
        ["  test: make test", "  approve: gate (prompt) (after: test)",
          "  deploy: make deploy (after: approve, test) [SKIP: branch == 'main']"] := by
  intro pipeline context
  have hvalid : pipeline.validate = .ok () := by decide +kernel
  have hgiven : ∀ step ∈ pipeline.steps, step.condition ≠ some ⟨""⟩ := by decide +kernel
  have hlines : pipeline.project.tasks.map (TaskEntry.describe context) =
      ["  test: make test", "  approve: gate (prompt) (after: test)",
        "  deploy: make deploy (after: approve, test) [SKIP: branch == 'main']"] := by
    decide +kernel
  obtain ⟨document, hdocument, -, -, hexplained⟩ := explanation_follows_document hvalid context
  refine ⟨hvalid, document, hdocument, hexplained.mpr hgiven, ?_⟩
  rw [(document_eq_ok_iff.mp hdocument).2, hlines]

/-- The reader is told of a condition without text, the engine is not. -/
theorem explanation_of_blank_condition :
    let pipeline := (withDefaults none).afterCalls
      [.addTask "t", .setTask 0 (.run "make"), .setTask 0 (.condition ⟨""⟩)]
    pipeline.Reachable ∧ pipeline.validate = .ok () ∧
      pipeline.project.tasks.map TaskEntry.condition = [none] ∧
      pipeline.document = .ok pipeline.project ∧
      pipeline.explain none = .ok "Pipeline: 1 tasks\n  t: make [when: ]\n" := by
  intro pipeline
  have hreachable : pipeline.Reachable := (Reachable.start none).afterCalls _
  have hvalid : pipeline.validate = .ok () := by decide +kernel
  have hcondition : pipeline.project.tasks.map TaskEntry.condition = [none] := by decide +kernel
  have hexplained : pipeline.explain none = .ok "Pipeline: 1 tasks\n  t: make [when: ]\n" := by
    decide +kernel
  exact ⟨hreachable, hvalid, hcondition, document_eq_ok_iff.mpr ⟨hvalid, rfl⟩, hexplained⟩

end Pipeline

end CiPipeline
