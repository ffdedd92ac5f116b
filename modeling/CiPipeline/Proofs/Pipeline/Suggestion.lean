import CiPipeline.Proofs.Binary64
import CiPipeline.Proofs.Pipeline.Validation

/-!
# Suggested names

What is suggested for a name is decided by the whole list of candidates, while the search passes
it once and keeps the best so far. Main statement: the suggestion is absent exactly if no candidate
reaches the threshold, and is the first of the best ones otherwise; for an unknown dependency it is
a name of the pipeline and another one than the dependency.
-/

namespace CiPipeline

namespace Similarity

/-- What a choice from candidates has to be: none of them if none reaches the threshold, otherwise
one that reaches it, that scores more than all before it and no less than all after it. -/
inductive Chosen (score : String → Rat) (threshold : Rat) (candidates : List String) :
    Option String → Prop where
  | nothing (hbelow : ∀ candidate ∈ candidates, score candidate < threshold) :
      Chosen score threshold candidates none
  | earliest {before after : List String} {best : String}
      (hsplit : candidates = before ++ best :: after) (hreaches : threshold ≤ score best)
      (hbefore : ∀ earlier ∈ before, score earlier < score best)
      (hafter : ∀ later ∈ after, score later ≤ score best) :
      Chosen score threshold candidates (some best)

variable {score : String → Rat} {threshold : Rat} {candidates : List String} {best : String}

theorem Chosen.below (h : Chosen score threshold candidates none) {candidate : String}
    (hcandidate : candidate ∈ candidates) : score candidate < threshold := by
  cases h with
  | nothing hbelow => exact hbelow candidate hcandidate

theorem Chosen.reaches (h : Chosen score threshold candidates (some best)) :
    threshold ≤ score best := by
  cases h with
  | earliest _ hreaches _ _ => exact hreaches

theorem Chosen.mem (h : Chosen score threshold candidates (some best)) : best ∈ candidates := by
  cases h with
  | earliest hsplit _ _ _ => simp [hsplit]

/-- No candidate scores more than the choice. -/
theorem Chosen.le_of_mem (h : Chosen score threshold candidates (some best)) {candidate : String}
    (hcandidate : candidate ∈ candidates) : score candidate ≤ score best := by
  cases h with
  | earliest hsplit _ hbefore hafter =>
      rw [hsplit, List.mem_append, List.mem_cons] at hcandidate
      rcases hcandidate with hmem | rfl | hmem
      · exact (hbefore candidate hmem).le
      · exact le_rfl
      · exact hafter candidate hmem

/-! ## Only one choice -/

/-- A candidate that no other one before a second choice scores less than is that choice. -/
theorem eq_of_gap {after after' gap : List String} {other : String}
    (hgap : best :: after = gap ++ other :: after') (hle : score other ≤ score best)
    (hlt : ∀ earlier ∈ gap, score earlier < score other) : best = other := by
  cases gap with
  | nil => exact (List.cons.inj hgap).1
  | cons first gap =>
      obtain rfl : best = first := (List.cons.inj hgap).1
      exact absurd (hlt best (List.mem_cons_self ..)) (not_lt.mpr hle)

theorem Chosen.eq_best {other : String} (h : Chosen score threshold candidates (some best))
    (hother : Chosen score threshold candidates (some other)) : best = other := by
  have hle : score other ≤ score best := h.le_of_mem hother.mem
  have hge : score best ≤ score other := hother.le_of_mem h.mem
  cases h with
  | earliest hsplit _ hbefore _ =>
      cases hother with
      | earliest hsplit' _ hbefore' _ =>
          rcases List.append_eq_append_iff.mp (hsplit.symm.trans hsplit') with
            ⟨gap, rfl, hgap⟩ | ⟨gap, rfl, hgap⟩
          · exact eq_of_gap hgap hle fun earlier hearlier =>
              hbefore' earlier (List.mem_append_right _ hearlier)
          · exact (eq_of_gap hgap hge fun earlier hearlier =>
              hbefore earlier (List.mem_append_right _ hearlier)).symm

theorem Chosen.unique {choice other : Option String} (h : Chosen score threshold candidates choice)
    (hother : Chosen score threshold candidates other) : choice = other := by
  cases choice with
  | none =>
      cases other with
      | none => rfl
      | some best => exact absurd (h.below hother.mem) (not_lt.mpr hother.reaches)
  | some best =>
      cases other with
      | none => exact absurd (hother.below h.mem) (not_lt.mpr h.reaches)
      | some other => rw [h.eq_best hother]

/-! ## One pass -/

/-- The best so far and its score, after one more candidate. -/
def consider (score : String → Rat) (threshold : Rat) (best : Option (String × Rat))
    (candidate : String) : Option (String × Rat) :=
  if score candidate < threshold then best
  else
    match best with
    | none => some (candidate, score candidate)
    | some (_, top) => if top < score candidate then some (candidate, score candidate) else best

theorem best?_eq (score : String → Rat) (threshold : Rat) (candidates : List String) :
    best? score threshold candidates =
      (candidates.foldl (consider score threshold) none).map (·.1) := rfl

/-- What is kept during the pass: a choice from the candidates so far, with its score. -/
structure Kept (score : String → Rat) (threshold : Rat) (candidates : List String)
    (kept : Option (String × Rat)) : Prop where
  chosen : Chosen score threshold candidates (kept.map (·.1))
  scored : ∀ pair ∈ kept, pair.2 = score pair.1

/-- A choice does not lose its place to a later candidate that scores no more. -/
theorem Chosen.append_of_le (h : Chosen score threshold candidates (some best)) {candidate : String}
    (hle : score candidate ≤ score best) :
    Chosen score threshold (candidates ++ [candidate]) (some best) := by
  cases h with
  | @earliest before after _ hsplit hreaches hbefore hafter =>
      refine .earliest (by rw [hsplit, List.append_assoc, List.cons_append]) hreaches hbefore ?_
      intro later hlater
      rcases List.mem_append.mp hlater with hlater | hlater
      · exact hafter later hlater
      · rwa [List.mem_singleton.mp hlater]

/-- A candidate that scores more than all before it takes their place. -/
theorem chosen_append_of_lt {candidate : String} (hreaches : threshold ≤ score candidate)
    (hlt : ∀ earlier ∈ candidates, score earlier < score candidate) :
    Chosen score threshold (candidates ++ [candidate]) (some candidate) :=
  .earliest rfl hreaches hlt (by simp)

theorem Kept.consider {kept : Option (String × Rat)} (h : Kept score threshold candidates kept)
    (candidate : String) :
    Kept score threshold (candidates ++ [candidate])
      (Similarity.consider score threshold kept candidate) := by
  obtain ⟨hchosen, hscored⟩ := h
  unfold Similarity.consider
  split_ifs with hbelow
  · refine ⟨?_, hscored⟩
    cases kept with
    | none =>
        refine .nothing fun earlier hearlier => ?_
        rcases List.mem_append.mp hearlier with hearlier | hearlier
        · exact hchosen.below hearlier
        · rwa [List.mem_singleton.mp hearlier]
    | some pair => exact hchosen.append_of_le (hbelow.le.trans hchosen.reaches)
  · rw [not_lt] at hbelow
    cases kept with
    | none =>
        exact ⟨chosen_append_of_lt hbelow fun earlier hearlier =>
          (hchosen.below hearlier).trans_le hbelow, by simp⟩
    | some pair =>
        obtain ⟨best, top⟩ := pair
        obtain rfl : top = score best := hscored _ rfl
        change Kept score threshold _ (if score best < score candidate then _ else _)
        split_ifs with hmore
        · exact ⟨chosen_append_of_lt hbelow fun earlier hearlier =>
            (hchosen.le_of_mem hearlier).trans_lt hmore, by simp⟩
        · exact ⟨hchosen.append_of_le (not_lt.mp hmore), hscored⟩

theorem kept_foldl (score : String → Rat) (threshold : Rat) (candidates : List String) :
    Kept score threshold candidates
      (candidates.foldl (Similarity.consider score threshold) none) := by
  induction candidates using List.reverseRecOn with
  | nil => exact ⟨.nothing (by simp), by simp⟩
  | append_singleton candidates candidate ih =>
      rw [List.foldl_append]
      exact ih.consider candidate

theorem best?_eq_iff {choice : Option String} :
    best? score threshold candidates = choice ↔ Chosen score threshold candidates choice := by
  have hchosen : Chosen score threshold candidates (best? score threshold candidates) := by
    rw [best?_eq]
    exact (kept_foldl score threshold candidates).chosen
  constructor
  · rintro rfl
    exact hchosen
  · exact hchosen.unique

/-! ## Rounded scores and the exact threshold -/

theorem isDouble_jaroWinkler (a b : String) :
    Binary64.IsDouble (jaroWinkler Binary64.nearest a b) := by
  rw [jaroWinkler]
  split_ifs
  · exact Binary64.isDouble_nearest _
  · exact Binary64.isDouble_one

/-- The double nearest to the threshold lies above it, and no double lies between the two. -/
theorem nearest_threshold_le_iff {value : Rat} (h : Binary64.IsDouble value) :
    Binary64.nearest Similarity.threshold ≤ value ↔ Similarity.threshold ≤ value := by
  have hnearest : Binary64.nearest Similarity.threshold =
      (7205759403792794 : Int) * (2 : Rat) ^ (-53 : Int) := by
    have heval : Binary64.nearest Similarity.threshold =
        mkRat 3602879701896397 4503599627370496 := by decide +kernel
    rw [heval, Rat.mkRat_eq_div]
    norm_num
  have habove : Similarity.threshold ≤ Binary64.nearest Similarity.threshold := by decide +kernel
  constructor
  · exact habove.trans
  · intro hle
    rw [hnearest]
    refine h.units_le (by norm_num) (lt_of_lt_of_le ?_ hle)
    rw [Similarity.threshold]
    norm_num

/-- The threshold matters only for which scores reach it. -/
theorem Chosen.of_threshold {other : Rat} {choice : Option String}
    (h : Chosen score threshold candidates choice)
    (hiff : ∀ candidate, threshold ≤ score candidate ↔ other ≤ score candidate) :
    Chosen score other candidates choice := by
  cases h with
  | nothing hbelow =>
      refine .nothing fun candidate hcandidate => ?_
      have hlt := hbelow candidate hcandidate
      rwa [← not_le, hiff, not_le] at hlt
  | @earliest before after best hsplit hreaches hbefore hafter =>
      exact .earliest hsplit ((hiff best).mp hreaches) hbefore hafter

theorem chosen_suggest? (name : String) (candidates : List String) :
    Chosen (jaroWinkler Binary64.nearest name) Similarity.threshold candidates
      (suggest? name candidates) :=
  (best?_eq_iff.mp rfl).of_threshold fun candidate =>
    nearest_threshold_le_iff (isDouble_jaroWinkler name candidate)

end Similarity

namespace Pipeline

open Similarity (Chosen jaroWinkler suggest?)

/-- A suggestion is nothing exactly if no candidate reaches the threshold, and otherwise the first
of those that score best. What is suggested for an unknown dependency is such a choice from the
names of all tasks and gates in order of declaration, and a name other than the dependency. -/
theorem suggestion_exact :
    (∀ name candidates choice, suggest? name candidates = choice ↔
      Chosen (jaroWinkler Binary64.nearest name) Similarity.threshold candidates choice) ∧
      ∀ pipeline : Pipeline, pipeline.Reachable → ∀ task dependency suggestion,
        pipeline.validate = .error (.unknownDependency task dependency suggestion) →
          Chosen (jaroWinkler Binary64.nearest dependency) Similarity.threshold pipeline.names
              suggestion ∧
            ∀ name, suggestion = some name → name ∈ pipeline.names ∧ name ≠ dependency := by
  constructor
  · intro name candidates choice
    have hchosen := Similarity.chosen_suggest? name candidates
    exact ⟨fun hchoice => hchoice ▸ hchosen, hchosen.unique⟩
  · intro pipeline hreachable task dependency suggestion hinvalid
    have hdescribes : pipeline.Describes (.unknownDependency task dependency suggestion) :=
      (validate_exact hreachable).2 _ hinvalid
    cases hdescribes with
    | unknownDependency _ _ _ hunknown =>
        have hchosen := Similarity.chosen_suggest? dependency pipeline.names
        refine ⟨hchosen, fun name hname => ?_⟩
        rw [hname] at hchosen
        exact ⟨hchosen.mem, ne_of_mem_of_not_mem hchosen.mem hunknown⟩

/-- Of two names that are equally near, the one declared first is suggested. -/
theorem suggestion_of_tie :
    let pipeline := (withDefaults none).afterCalls
      [.addTask "lint", .setTask 0 (.run "make"), .addTask "build1", .setTask 1 (.run "make"),
        .addTask "build2", .setTask 2 (.run "make"), .setTask 2 (.after ["build"])]
    pipeline.validate = .error (.unknownDependency "build2" "build" (some "build1")) ∧
      Chosen (jaroWinkler Binary64.nearest "build") Similarity.threshold
        ["lint", "build1", "build2"] (some "build1") ∧
      jaroWinkler Binary64.nearest "build" "build1" =
        jaroWinkler Binary64.nearest "build" "build2" := by
  intro pipeline
  have hinvalid : pipeline.validate =
      .error (.unknownDependency "build2" "build" (some "build1")) := by decide +kernel
  have hnames : pipeline.names = ["lint", "build1", "build2"] := by decide +kernel
  have hreachable : pipeline.Reachable := (Reachable.start none).afterCalls _
  have hchosen := (suggestion_exact.2 pipeline hreachable _ _ _ hinvalid).1
  rw [hnames] at hchosen
  exact ⟨hinvalid, hchosen, by decide +kernel⟩

end Pipeline

end CiPipeline
