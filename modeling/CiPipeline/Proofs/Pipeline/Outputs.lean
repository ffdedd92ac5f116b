import CiPipeline.Pipeline.Projection
import CiPipeline.Proofs.OrderedMap
import Mathlib.Data.List.Nodup
import Mathlib.Data.List.Perm.Subperm
import Mathlib.Data.Nat.Find
import Mathlib.Order.Bounds.Basic

/-!
# Names for outputs

An unnamed output is named by its place, and the place is appended until no named output has the
name. Names of different places differ, so that unnamed outputs never come into each other's way.
Main statement: all named outputs are kept, and after them every unnamed one stands in its turn,
under the first of its names that is free.
-/

namespace CiPipeline

/-! ## The names of a place -/

theorem toList_outputName (place copies : Nat) :
    (outputName place copies).toList =
      "output_".toList ++ (Nat.toDigits 10 place ++
        (List.replicate copies ('_' :: Nat.toDigits 10 place)).flatten) := by
  simp [outputName, List.flatMap]

theorem takeWhile_toDigits (place copies : Nat) :
    (Nat.toDigits 10 place ++
      (List.replicate copies ('_' :: Nat.toDigits 10 place)).flatten).takeWhile (· != '_') =
        Nat.toDigits 10 place := by
  have hdigits : ∀ c ∈ Nat.toDigits 10 place, (c != '_') = true := by
    intro c hc
    have hdigit := Nat.isDigit_of_mem_toDigits (by decide) (by decide) hc
    rw [bne_iff_ne]
    rintro rfl
    exact absurd hdigit (by decide)
  rw [List.takeWhile_append_of_pos hdigits]
  cases copies with
  | zero => simp
  | succ copies => simp [List.replicate_succ]

/-- A name tells its place, which ends at an underscore, and by its length how often the place was
appended. -/
theorem outputName_inj {place copies other more : Nat}
    (h : outputName place copies = outputName other more) : place = other ∧ copies = more := by
  have htexts := congrArg String.toList h
  rw [toList_outputName, toList_outputName, List.append_cancel_left_eq] at htexts
  have hdigits : Nat.toDigits 10 place = Nat.toDigits 10 other := by
    rw [← takeWhile_toDigits place copies, htexts, takeWhile_toDigits]
  obtain rfl : place = other := by
    rw [← Nat.ofDigitChars_ten_toDigits (n := place), hdigits, Nat.ofDigitChars_ten_toDigits]
  have hlengths := congrArg List.length (List.append_cancel_left htexts)
  simp only [List.length_flatten, List.map_replicate, List.sum_replicate_nat,
    List.length_cons] at hlengths
  exact ⟨rfl, Nat.eq_of_mul_eq_mul_right (Nat.succ_pos _) hlengths⟩

/-! ## The first free name of a place -/

variable {entries named : OrderedMap String} {place : Nat}

/-- The numbers of repetitions that give an unnamed output a name without an entry. -/
def freeCopies (entries : OrderedMap String) (place : Nat) : Set Nat :=
  {copies | outputName place copies ∉ entries.keys}

/-- Every name that is taken takes up an entry of its own. -/
theorem le_size_of_taken {bound : Nat}
    (h : ∀ copies < bound, outputName place copies ∈ entries.keys) : bound ≤ entries.size := by
  have hnodup : ((List.range bound).map (outputName place)).Nodup :=
    List.Nodup.map (fun _ _ hsame => (outputName_inj hsame).2) List.nodup_range
  have hsub : (List.range bound).map (outputName place) ⊆ entries.keys := by
    intro name hname
    obtain ⟨copies, hcopies, rfl⟩ := List.mem_map.mp hname
    exact h copies (List.mem_range.mp hcopies)
  have hlength := (List.subperm_of_subset hnodup hsub).length_le
  simpa [OrderedMap.keys, OrderedMap.size] using hlength

theorem exists_isLeast_freeCopies (entries : OrderedMap String) (place : Nat) :
    ∃ copies, IsLeast (freeCopies entries place) copies := by
  have hfree : ∃ copies, copies ∈ freeCopies entries place := by
    by_contra hnone
    have htaken : ∀ copies < entries.size + 1, outputName place copies ∈ entries.keys := by
      intro copies _
      by_contra hcopies
      exact hnone ⟨copies, hcopies⟩
    have hbound := le_size_of_taken htaken
    omega
  classical
  exact ⟨Nat.find hfree, Nat.find_spec hfree, fun _ hcopies => Nat.find_min' hfree hcopies⟩

theorem mem_keys_of_lt {copies other : Nat} (h : IsLeast (freeCopies entries place) copies)
    (hother : other < copies) : outputName place other ∈ entries.keys := by
  by_contra hfree
  exact absurd (h.2 hfree) (Nat.not_le_of_lt hother)

/-- The search tries one repetition more after each name that is taken. -/
theorem freshName_eq {copies start fuel : Nat} (h : IsLeast (freeCopies entries place) copies)
    (hstart : start ≤ copies) (hfuel : copies ≤ start + fuel) :
    freshName entries place fuel start = outputName place copies := by
  induction fuel generalizing start with
  | zero =>
      have hsame : start = copies := by omega
      rw [freshName, hsame]
  | succ fuel ih =>
      rw [freshName]
      by_cases hsame : start = copies
      · subst hsame
        have hfree : ¬ entries.contains (outputName place start) = true :=
          mt OrderedMap.contains_iff.mp h.1
        rw [if_neg hfree]
      · have htaken : entries.contains (outputName place start) = true :=
          OrderedMap.contains_iff.mpr (mem_keys_of_lt h (by omega))
        rw [if_pos htaken]
        exact ih (by omega) (by omega)

/-- The search ends within its bound, at the first name that is free. -/
theorem freshName_size {copies : Nat} (h : IsLeast (freeCopies entries place) copies) :
    freshName entries place entries.size 0 = outputName place copies := by
  have hbound : copies ≤ entries.size := le_size_of_taken fun _ hother => mem_keys_of_lt h hother
  exact freshName_eq h (Nat.zero_le _) (by omega)

/-! ## All outputs -/

/-- An entry for one place takes no name from another one. -/
theorem freeCopies_insert {other : Nat} (hne : other ≠ place) (copies : Nat) (path : String) :
    freeCopies (entries.insert (outputName place copies) path) other =
      freeCopies entries other := by
  ext more
  have hname : outputName other more ≠ outputName place copies :=
    fun hsame => hne (outputName_inj hsame).1
  simp [freeCopies, OrderedMap.mem_keys_insert, hname]

/-- Outputs are added under the first free name of each place, as long as the places to come have
lost none to the places before. -/
theorem toList_addUnnamed {copies : Nat → Nat}
    (h : ∀ other, place ≤ other → IsLeast (freeCopies entries other) (copies other))
    (unnamed : List String) :
    (addUnnamed entries place unnamed).toList = entries.toList ++
      (unnamed.zipIdx place).map fun (path, place) => (outputName place (copies place), path) := by
  induction unnamed generalizing entries place with
  | nil => simp [addUnnamed]
  | cons path rest ih =>
      have hplace := h place (Nat.le_refl place)
      have hlater : ∀ other, place + 1 ≤ other → IsLeast
          (freeCopies (entries.insert (outputName place (copies place)) path) other)
          (copies other) := by
        intro other hother
        rw [freeCopies_insert (by omega)]
        exact h other (by omega)
      have hnew : (entries.insert (outputName place (copies place)) path).toList =
          entries.toList ++ [(outputName place (copies place), path)] :=
        writeEntry_of_not_mem path hplace.1
      rw [addUnnamed, freshName_size hplace, ih hlater, hnew, List.zipIdx_cons, List.map_cons,
        List.append_assoc, List.singleton_append]

/-- The named outputs stay as they are. After them stands one entry for each unnamed output, in
order, and its name repeats its place as often as the named outputs demand, whatever other unnamed
outputs there are. -/
theorem mergeOutputs_exact (named : OrderedMap String) :
    ∃ copies : Nat → Nat,
      (∀ place, IsLeast {k | outputName place k ∉ named.keys} (copies place)) ∧
        ∀ unnamed, (mergeOutputs named unnamed).toList = named.toList ++
          unnamed.zipIdx.map fun (path, place) => (outputName place (copies place), path) := by
  choose copies hcopies using exists_isLeast_freeCopies named
  exact ⟨copies, hcopies, toList_addUnnamed fun place _ => hcopies place⟩

/-- The second output has to repeat its place twice, the first one and the third not at all. -/
example :
    (mergeOutputs (.ofList [("output_1", "a"), ("output_1_1", "b")]) ["x", "y", "z"]).toList =
      [("output_1", "a"), ("output_1_1", "b"), ("output_0", "x"), ("output_1_1_1", "y"),
        ("output_2", "z")] := by
  decide +kernel

end CiPipeline
