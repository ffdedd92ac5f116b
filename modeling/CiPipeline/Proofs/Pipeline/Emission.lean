import CiPipeline.Pipeline.Emission
import CiPipeline.Proofs.Json.Stream
import CiPipeline.Proofs.Pipeline.Call
import CiPipeline.Proofs.Pipeline.Projection

/-!
# What is written out

A document goes out part by part, an explanation as a whole. Main statements: for an invalid
pipeline nothing is written; else a sink holds the beginning of the text, and the whole of it if the
call succeeds; and the outcome tells whether there was room and, for a document only, whether the
sink could be flushed.
-/

namespace CiPipeline

/-! ## How a text reaches a sink -/

/-- All ways in which a document can be written to a sink. -/
inductive Emitted (text : String) (sink : Sink) : Except Refusal Unit × Sink → Prop where
  | full (h : ¬ sink.Takes (Text.utf8 text.toList)) :
      Emitted text sink (.error (.unwritten .full), sink.after (Text.utf8 text.toList))
  | unflushed (h : sink.Takes (Text.utf8 text.toList)) (hfails : sink.flushFails = true) :
      Emitted text sink (.error (.sink .flush), sink.after (Text.utf8 text.toList))
  | flushed (h : sink.Takes (Text.utf8 text.toList)) (hfails : sink.flushFails = false) :
      Emitted text sink (.ok (), (sink.after (Text.utf8 text.toList)).settled)

/-- All ways in which an explanation can be written to a sink. -/
inductive Explained (text : String) (sink : Sink) : Except Refusal Unit × Sink → Prop where
  | full (h : ¬ sink.Takes (Text.utf8 text.toList)) :
      Explained text sink (.error (.sink .full), sink.after (Text.utf8 text.toList))
  | written (h : sink.Takes (Text.utf8 text.toList)) :
      Explained text sink (.ok (), sink.after (Text.utf8 text.toList))

/-- The sink holds the beginning of a text behind what it held, as much of it as there is room for,
and the call succeeds only with the whole of it. -/
structure HoldsBeginning (text : String) (sink : Sink) (outcome : Except Refusal Unit × Sink) :
    Prop where
  held : outcome.2.held = sink.held ++ sink.fitting (Text.utf8 text.toList)
  isPrefix : sink.fitting (Text.utf8 text.toList) <+: Text.utf8 text.toList
  whole : outcome.1 = .ok () → outcome.2.held = sink.held ++ Text.utf8 text.toList

/-- What the outcome of writing a document tells. That a sink is full counts as a document that
cannot be written. -/
structure TellsEmission (text : String) (sink : Sink) (outcome : Except Refusal Unit × Sink) :
    Prop where
  ok_iff : outcome.1 = .ok () ↔ sink.Takes (Text.utf8 text.toList) ∧ sink.flushFails = false
  full_iff : outcome.1 = .error (.unwritten .full) ↔ ¬ sink.Takes (Text.utf8 text.toList)
  flush_iff : outcome.1 = .error (.sink .flush) ↔
    sink.Takes (Text.utf8 text.toList) ∧ sink.flushFails = true
  flushed : outcome.1 = .ok () → outcome.2.flushed = outcome.2.held.length

/-- What the outcome of writing an explanation tells. The sink is not flushed. -/
structure TellsExplanation (text : String) (sink : Sink) (outcome : Except Refusal Unit × Sink) :
    Prop where
  ok_iff : outcome.1 = .ok () ↔ sink.Takes (Text.utf8 text.toList)
  full_iff : outcome.1 = .error (.sink .full) ↔ ¬ sink.Takes (Text.utf8 text.toList)
  flushed : outcome.2.flushed = sink.flushed

variable {text : String} {sink : Sink} {outcome : Except Refusal Unit × Sink}

theorem whole_of_takes (h : sink.Takes (Text.utf8 text.toList)) :
    (sink.after (Text.utf8 text.toList)).held = sink.held ++ Text.utf8 text.toList := by
  rw [Sink.after, Sink.fitting_of_takes h]

theorem Emitted.holdsBeginning (h : Emitted text sink outcome) :
    HoldsBeginning text sink outcome := by
  cases h with
  | full => exact ⟨rfl, sink.fitting_isPrefix _, nofun⟩
  | unflushed => exact ⟨rfl, sink.fitting_isPrefix _, nofun⟩
  | flushed htakes => exact ⟨rfl, sink.fitting_isPrefix _, fun _ => whole_of_takes htakes⟩

theorem Explained.holdsBeginning (h : Explained text sink outcome) :
    HoldsBeginning text sink outcome := by
  cases h with
  | full => exact ⟨rfl, sink.fitting_isPrefix _, nofun⟩
  | written htakes => exact ⟨rfl, sink.fitting_isPrefix _, fun _ => whole_of_takes htakes⟩

theorem Emitted.tells (h : Emitted text sink outcome) : TellsEmission text sink outcome := by
  cases h with
  | full hfull => constructor <;> simp [hfull]
  | unflushed htakes hfails => constructor <;> simp [htakes, hfails]
  | flushed htakes hfails => constructor <;> simp [htakes, hfails, Sink.settled]

theorem Explained.tells (h : Explained text sink outcome) : TellsExplanation text sink outcome := by
  cases h with
  | full hfull => constructor <;> simp [hfull, Sink.after]
  | written htakes => constructor <;> simp [htakes, Sink.after]

namespace Pipeline

variable {pipeline : Pipeline} {problem : Invalid}

/-! ## Documents -/

theorem whenValid_of_invalid (h : pipeline.validate = .error problem) (answer : α) :
    pipeline.whenValid answer = .error (.invalid problem) := by
  rw [whenValid, h]

theorem whenValid_of_valid (h : pipeline.validate = .ok ()) (answer : α) :
    pipeline.whenValid answer = .ok answer := by
  rw [whenValid, h]

theorem emitTo_of_invalid (h : pipeline.validate = .error problem) (sink : Sink) :
    pipeline.emitTo sink = (.error (.invalid problem), sink) := by
  rw [emitTo, document, whenValid_of_invalid h]

/-- The document is put out part by part, and the sink is left as its text leaves it. -/
theorem emitTo_of_valid (h : pipeline.validate = .ok ()) (sink : Sink) :
    pipeline.emitTo sink =
      match sink.write (Text.utf8 pipeline.project.text.toList) with
      | (.error failure, next) => (.error (.unwritten failure), next)
      | (.ok (), next) => (next.flush.1.mapError .sink, next.flush.2) := by
  have hputs := Json.puts_compact pipeline.project.toJson sink
  rw [emitTo, document, whenValid_of_valid h]
  dsimp only
  rw [hputs]
  rfl

theorem emitted_emitTo (h : pipeline.validate = .ok ()) (sink : Sink) :
    Emitted pipeline.project.text sink (pipeline.emitTo sink) := by
  rw [emitTo_of_valid h]
  by_cases htakes : sink.Takes (Text.utf8 pipeline.project.text.toList)
  · rw [Sink.write_of_takes htakes]
    dsimp only
    cases hfails : sink.flushFails with
    | true =>
        rw [Sink.flush_after_of_fails hfails]
        exact .unflushed htakes hfails
    | false =>
        rw [Sink.flush_after_of_not_fails hfails]
        exact .flushed htakes hfails
  · rw [Sink.write_of_not_takes htakes]
    exact .full htakes

/-! ## Explanations -/

theorem explainTo_of_invalid (h : pipeline.validate = .error problem) (sink : Sink)
    (context : Option RunContext) :
    pipeline.explainTo sink context = (.error (.invalid problem), sink) := by
  rw [explainTo, explain, whenValid_of_invalid h]

theorem explained_explainTo (h : pipeline.validate = .ok ()) (sink : Sink)
    (context : Option RunContext) :
    Explained (pipeline.describe context) sink (pipeline.explainTo sink context) := by
  rw [explainTo, explain, whenValid_of_valid h]
  dsimp only
  by_cases htakes : sink.Takes (Text.utf8 (pipeline.describe context).toList)
  · rw [Sink.write_of_takes htakes]
    exact .written htakes
  · rw [Sink.write_of_not_takes htakes]
    exact .full htakes

/-! ## What the sink holds and what the outcome tells -/

/-- For an invalid pipeline nothing is written and its problem is told; else the sink holds the
beginning of the document's text or of the explanation, and the whole of it after a success. -/
theorem sinks_hold_beginnings (pipeline : Pipeline) (sink : Sink) (context : Option RunContext) :
    match pipeline.validate with
    | .error problem =>
        pipeline.emitTo sink = (.error (.invalid problem), sink) ∧
          pipeline.explainTo sink context = (.error (.invalid problem), sink)
    | .ok () =>
        ∃ text explanation, pipeline.text = .ok text ∧
          pipeline.explain context = .ok explanation ∧
          HoldsBeginning text sink (pipeline.emitTo sink) ∧
          HoldsBeginning explanation sink (pipeline.explainTo sink context) := by
  cases h : pipeline.validate with
  | error problem => exact ⟨emitTo_of_invalid h sink, explainTo_of_invalid h sink context⟩
  | ok =>
      exact ⟨_, _, text_eq_ok_iff.mpr ⟨h, rfl⟩, whenValid_of_valid h _,
        (emitted_emitTo h sink).holdsBeginning, (explained_explainTo h sink context).holdsBeginning⟩

/-- A document is written with success exactly if the sink takes all of its text and can be flushed,
and then it is flushed; an explanation is written with success exactly if the sink takes all of
it, flushed or not. Each failure is told apart. -/
theorem outcomes_tell_failures (h : pipeline.validate = .ok ()) (sink : Sink)
    (context : Option RunContext) :
    ∃ text explanation, pipeline.text = .ok text ∧ pipeline.explain context = .ok explanation ∧
      TellsEmission text sink (pipeline.emitTo sink) ∧
      TellsExplanation explanation sink (pipeline.explainTo sink context) :=
  ⟨_, _, text_eq_ok_iff.mpr ⟨h, rfl⟩, whenValid_of_valid h _, (emitted_emitTo h sink).tells,
    (explained_explainTo h sink context).tells⟩

/-- A sink that takes the document to its last byte and cannot be flushed: only who writes the
document is told. -/
theorem outcomes_of_unflushed_sink :
    let pipeline := (withDefaults none).afterCalls [.addTask "t", .setTask 0 (.run "say \"é\"")]
    let sink := Sink.new (some 61) true
    pipeline.Reachable ∧ pipeline.validate = .ok () ∧
      (pipeline.emitTo sink).1 = .error (.sink .flush) ∧
      (pipeline.explainTo sink none).1 = .ok () ∧
      (pipeline.explainTo sink none).2.flushed = 0 := by
  intro pipeline sink
  have hvalid : pipeline.validate = .ok () := by decide +kernel
  obtain ⟨text, explanation, htext, hexplanation, hemits, hexplains⟩ :=
    outcomes_tell_failures hvalid sink none
  obtain ⟨-, rfl⟩ := text_eq_ok_iff.mp htext
  rw [explain, whenValid_of_valid hvalid] at hexplanation
  cases hexplanation
  have htakes : sink.Takes (Text.utf8 pipeline.project.text.toList) := by decide +kernel
  have hroom : sink.Takes (Text.utf8 (pipeline.describe none).toList) := by decide +kernel
  exact ⟨(Reachable.start none).afterCalls _, hvalid, hemits.flush_iff.mpr ⟨htakes, rfl⟩,
    hexplains.ok_iff.mpr hroom, hexplains.flushed⟩

/-- An explanation is written with success to a sink that cannot be flushed, and a document that a
sink has no room for is told to be one that cannot be written. -/
theorem explanation_not_flushed :
    let pipeline := (withDefaults none).afterCalls [.addTask "t", .setTask 0 (.run "make")]
    pipeline.Reachable ∧ pipeline.validate = .ok () ∧
      (pipeline.explainTo (Sink.new none true) none).1 = .ok () ∧
      (pipeline.explainTo (Sink.new none true) none).2.flushed = 0 ∧
      (pipeline.emitTo (Sink.new (some 3) false)).1 = .error (.unwritten .full) := by
  intro pipeline
  refine ⟨(Reachable.start none).afterCalls _, ?_, ?_, ?_, ?_⟩
  · decide +kernel
  · decide +kernel
  · decide +kernel
  · decide +kernel

end Pipeline

end CiPipeline
