import CiPipeline.Proofs.Pipeline.Validation
import CiPipeline.Proofs.TaskGraph.Layers

/-!
# Levels of execution

A valid pipeline has levels of execution: its dependencies can all be wired and form no cycle. Main
statement: levels are refused exactly where validation fails, with its problem, and otherwise they
are the layers of the dependencies.
-/

namespace CiPipeline.Pipeline

open TaskGraph

variable {pipeline : Pipeline}

theorem missing_graph (h : pipeline.Indexed) (hresolved : pipeline.Resolved) :
    pipeline.graph.missing = [] := by
  rw [missing_eq_nil_iff pipeline.reachable_graph.numbers]
  intro node hnode dependency hdependency
  rw [nodes_graph h] at hnode
  obtain ⟨step, hstep, rfl⟩ := List.mem_map.mp hnode
  have hknown := hresolved step hstep dependency hdependency
  rwa [← names_graph h] at hknown

/-- A valid pipeline has levels: its graph can be wired, and its groups are layers. -/
theorem layers_of_valid (h : pipeline.Reachable) (hvalid : pipeline.validate = .ok ()) :
    ∃ levels, pipeline.executionLevels = .ok levels ∧
      Layers pipeline.names pipeline.DependsOn levels := by
  obtain ⟨-, hresolved, hacyclic, -⟩ := (validate_eq_ok_iff h.indexed).mp hvalid
  have hdepends : pipeline.graph.DependsOn = pipeline.DependsOn := by
    ext task dependency
    exact dependsOn_graph_iff h.indexed hresolved
  obtain ⟨wired, hwire⟩ := exists_wire (missing_graph h.indexed hresolved)
  rw [← hdepends] at hacyclic
  obtain ⟨levels, hlevels, hlayers⟩ :=
    parallelGroups_of_wire pipeline.reachable_graph hwire hacyclic
  rw [hdepends, names_graph h.indexed] at hlayers
  refine ⟨levels, ?_, hlayers⟩
  have hwired : (pipeline.graph.wire >>= TaskGraph.parallelGroups) = .ok levels := by
    rw [hwire]
    exact hlevels
  rw [executionLevels, hvalid]
  exact congrArg (Except.mapError Refusal.graph) hwired

/-- Every step of a valid pipeline is in exactly one level, and whatever it depends on is in a level
before. -/
theorem executionLevels_of_valid (h : pipeline.Reachable) (hvalid : pipeline.validate = .ok ()) :
    ∃ levels, pipeline.executionLevels = .ok levels ∧
      (∀ name ∈ pipeline.names, ∃! level, StandsIn levels level name) ∧
      ∀ task dependency low high, pipeline.DependsOn task dependency →
        StandsIn levels low dependency → StandsIn levels high task → low < high := by
  obtain ⟨levels, hlevels, hlayers⟩ := layers_of_valid h hvalid
  refine ⟨levels, hlevels, fun name hname => hlayers.existsUnique_standsIn hname, ?_⟩
  intro task dependency low high hdepends
  exact (hlayers.earlier task dependency hdepends).lt low high

theorem executionLevels_of_invalid {problem : Invalid}
    (hinvalid : pipeline.validate = .error problem) :
    pipeline.executionLevels = .error (.invalid problem) := by
  rw [executionLevels, hinvalid]
  rfl

/-- Levels are refused with the problem that validation reports, and with nothing else. Where they
are given, every step is in one level and once, after everything that it depends on and no further
down than it has to be: no numbers that grow along dependencies give it less than its level. -/
theorem executionLevels_exact (h : pipeline.Reachable) :
    (∀ refusal, pipeline.executionLevels = .error refusal ↔
      ∃ problem, pipeline.validate = .error problem ∧ refusal = .invalid problem) ∧
    ∀ levels, pipeline.executionLevels = .ok levels →
      Layers pipeline.names pipeline.DependsOn levels ∧
      ∀ rank : String → Nat,
        (∀ name dependency, pipeline.DependsOn name dependency → rank dependency < rank name) →
        ∀ level name, StandsIn levels level name → level ≤ rank name := by
  cases hvalidate : pipeline.validate with
  | error problem =>
      rw [executionLevels_of_invalid hvalidate]
      simp [eq_comm]
  | ok =>
      obtain ⟨levels, hlevels, hlayers⟩ := layers_of_valid h hvalidate
      rw [hlevels]
      constructor
      · simp
      · intro given hgiven
        cases hgiven
        refine ⟨hlayers, ?_⟩
        intro rank hrank level name hstands
        exact hlayers.level_le_rank hrank hstands

/-- A gate between two tasks, and a task that waits for nothing but was declared last. -/
theorem executionLevels_around_gate :
    let pipeline := (withDefaults none).afterCalls
      [.addTask "deploy", .setTask 0 (.run "make deploy"), .setTask 0 (.after ["approve", "lint"]),
        .addGate "approve", .setGate 1 (.after ["test"]),
        .addTask "test", .setTask 2 (.run "make test"),
        .addTask "lint", .setTask 3 (.run "make lint")]
    let levels := [["test", "lint"], ["approve"], ["deploy"]]
    pipeline.Reachable ∧ pipeline.executionLevels = .ok levels ∧
      Layers pipeline.names pipeline.DependsOn levels := by
  intro pipeline levels
  have hreachable : pipeline.Reachable := (Reachable.start none).afterCalls _
  have hlevels : pipeline.executionLevels = .ok levels := by decide +kernel
  exact ⟨hreachable, hlevels, ((executionLevels_exact hreachable).2 levels hlevels).1⟩

end CiPipeline.Pipeline
