import CiPipeline.Proofs.Similarity.Pairing
import Mathlib.Algebra.Order.Field.Basic
import Mathlib.Data.List.Zip
import Mathlib.Data.Rat.Cast.Order
import Mathlib.Data.String.Basic
import Mathlib.Tactic.Linarith
import Mathlib.Tactic.Ring

/-!
# What a score says

A score does not depend on which of its texts comes first, however it is rounded. Main statement:
exact scores lie between zero and one, are one for equal texts only, and zero exactly where no
characters find each other; a common beginning never lowers a score.
-/

namespace CiPipeline.Similarity

/-! ## Symmetry -/

/-- Different texts are compared with the lesser one first. -/
theorem jaro_eq (round : Rat → Rat) {a b : String} (h : a ≠ b) :
    jaro round a b = orderedJaro round (min a b).toList (max a b).toList := by
  rw [jaro, if_neg h]
  by_cases hle : a ≤ b
  · rw [if_pos hle, min_eq_left hle, max_eq_right hle]
  · have hge : b ≤ a := (le_total a b).resolve_left hle
    rw [if_neg hle, min_eq_right hge, max_eq_left hge]

theorem jaro_comm (round : Rat → Rat) (a b : String) : jaro round a b = jaro round b a := by
  by_cases h : a = b
  · rw [h]
  · rw [jaro_eq round h, jaro_eq round (Ne.symm h), min_comm, max_comm]

theorem commonStart_comm (a b : List Char) : commonStart a b = commonStart b a := by
  rw [commonStart, commonStart, ← List.zip_swap a b, ← List.map_take, List.takeWhile_map,
    List.length_map]
  congr 2
  funext pair
  exact BEq.comm

theorem jaroWinkler_comm (round : Rat → Rat) (a b : String) :
    jaroWinkler round a b = jaroWinkler round b a := by
  rw [jaroWinkler, jaroWinkler, jaro_comm round a b, commonStart_comm a.toList b.toList]

/-! ## Shares -/

/-- A positive part of one, which is all of it only under a condition. -/
structure Share (value : Rat) (Whole : Prop) : Prop where
  pos : 0 < value
  le_one : value ≤ 1
  whole : value = 1 → Whole

theorem Share.mono {value : Rat} {Whole More : Prop} (h : Share value Whole)
    (himp : Whole → More) : Share value More where
  pos := h.pos
  le_one := h.le_one
  whole hone := himp (h.whole hone)

theorem Share.mean {first second third : Rat} {One Two Three : Prop} (hfirst : Share first One)
    (hsecond : Share second Two) (hthird : Share third Three) :
    Share ((first + second + third) / 3) (One ∧ Two ∧ Three) where
  pos := by linarith [hfirst.pos, hsecond.pos, hthird.pos]
  le_one := by linarith [hfirst.le_one, hsecond.le_one, hthird.le_one]
  whole hone := by
    have hones := And.intro hfirst.le_one (And.intro hsecond.le_one hthird.le_one)
    refine ⟨hfirst.whole ?_, hsecond.whole ?_, hthird.whole ?_⟩
    · linarith
    · linarith
    · linarith

/-- So many of the characters of a text. -/
theorem share_of_le {part whole : Nat} (hpart : 0 < part) (h : part ≤ whole) :
    Share ((part : Rat) / whole) (part = whole) := by
  have hwhole : (0 : Rat) < whole := by exact_mod_cast hpart.trans_le h
  have hpos : (0 : Rat) < part := by exact_mod_cast hpart
  refine ⟨div_pos hpos hwhole, (div_le_one hwhole).mpr (by exact_mod_cast h), fun hone => ?_⟩
  rw [div_eq_one_iff_eq hwhole.ne'] at hone
  exact_mod_cast hone

/-- Half of the characters that are out of order count as such. -/
theorem share_in_order {part out : Nat} (hpart : 0 < part) (h : out ≤ part) :
    Share (((part : Rat) - (out : Rat) / 2) / part) (out = 0) := by
  have hpos : (0 : Rat) < part := by exact_mod_cast hpart
  have hout : (out : Rat) ≤ part := by exact_mod_cast h
  have hnonneg : (0 : Rat) ≤ out := Nat.cast_nonneg out
  refine ⟨div_pos (by linarith) hpos, (div_le_one hpos).mpr (by linarith), fun hone => ?_⟩
  rw [div_eq_one_iff_eq hpos.ne'] at hone
  have hzero : (out : Rat) = 0 := by linarith
  exact_mod_cast hzero

/-! ## The exact score -/

theorem displaced_le (found taken : List Char) : displaced found taken ≤ found.length :=
  calc
    displaced found taken ≤ (found.zip taken).length := List.length_filter_le _ _
    _ ≤ found.length := by
      rw [List.length_zip]
      exact Nat.min_le_left _ _

theorem eq_of_displaced_eq_zero {found taken : List Char} (hlength : found.length = taken.length)
    (h : displaced found taken = 0) : found = taken := by
  rw [displaced, List.length_eq_zero_iff, List.filter_eq_nil_iff] at h
  apply List.ext_getElem hlength
  intro i hfound htaken
  have hpair : (found[i], taken[i]) ∈ found.zip taken :=
    List.mem_iff_getElem.mpr ⟨i, by simp [hfound, htaken], List.getElem_zip⟩
  simpa using h _ hpair

variable {a b : List Char}

theorem orderedJaro_of_no_match (round : Rat → Rat) (h : (matched a b).1 = []) :
    orderedJaro round a b = 0 := by
  rw [orderedJaro]
  split
  · rfl
  · dsimp only
    rw [if_pos (List.isEmpty_iff.mpr h)]

/-- Where characters find each other the score is the mean of three shares, all of which are whole
for equal texts only. -/
theorem share_orderedJaro (h : (matched a b).1 ≠ []) : Share (orderedJaro id a b) (a = b) := by
  have hlengths : (matched a b).1.length = (matched a b).2.length := (matched_perm a b).length_eq
  have hfound := matched_sublist_left a b
  have htaken := matched_sublist_right a b
  have hpos : 0 < (matched a b).1.length := List.length_pos_iff.mpr h
  have hfirst := share_of_le hpos hfound.length_le
  have hsecond := share_of_le hpos (hlengths.trans_le htaken.length_le)
  have hthird := share_in_order hpos (displaced_le (matched a b).1 (matched a b).2)
  have hmean : orderedJaro id a b =
      ((matched a b).1.length / a.length + (matched a b).1.length / b.length +
        ((matched a b).1.length - (displaced (matched a b).1 (matched a b).2 : Rat) / 2) /
          (matched a b).1.length) / 3 := by
    have hleft : a ≠ [] := fun hnil => h (List.sublist_nil.mp (hnil ▸ hfound))
    have hright : b ≠ [] := by
      intro hnil
      rw [← List.length_pos_iff, hlengths, List.length_pos_iff] at h
      exact h (List.sublist_nil.mp (hnil ▸ htaken))
    rw [orderedJaro, if_neg (by simp [hleft, hright])]
    dsimp only [id]
    rw [if_neg (by simpa using h)]
  rw [hmean]
  refine (hfirst.mean hsecond hthird).mono ?_
  rintro ⟨hall, hevery, hnone⟩
  have hsame := eq_of_displaced_eq_zero hlengths hnone
  rw [← hfound.eq_of_length hall, hsame]
  exact htaken.eq_of_length (hlengths.symm.trans hevery)

theorem orderedJaro_nonneg (a b : List Char) : 0 ≤ orderedJaro id a b := by
  by_cases h : (matched a b).1 = []
  · exact (orderedJaro_of_no_match id h).ge
  · exact (share_orderedJaro h).pos.le

theorem orderedJaro_eq_zero_iff : orderedJaro id a b = 0 ↔ (matched a b).1 = [] := by
  constructor
  · intro hzero
    by_contra h
    exact (share_orderedJaro h).pos.ne' hzero
  · exact orderedJaro_of_no_match id

/-- Different texts have a score below one. -/
theorem orderedJaro_lt_one (h : a ≠ b) : orderedJaro id a b < 1 := by
  by_cases hnone : (matched a b).1 = []
  · rw [orderedJaro_of_no_match id hnone]
    exact one_pos
  · have hshare := share_orderedJaro hnone
    exact lt_of_le_of_ne hshare.le_one fun hone => h (hshare.whole hone)

theorem toList_min_ne_max {a b : String} (h : a ≠ b) : (min a b).toList ≠ (max a b).toList := by
  rw [ne_eq, String.toList_inj]
  exact (min_lt_max.mpr h).ne

theorem jaro_nonneg (a b : String) : 0 ≤ jaro id a b := by
  by_cases h : a = b
  · rw [h, jaro_self]
    exact zero_le_one
  · rw [jaro_eq id h]
    exact orderedJaro_nonneg _ _

theorem jaro_lt_one {a b : String} (h : a ≠ b) : jaro id a b < 1 := by
  rw [jaro_eq id h]
  exact orderedJaro_lt_one (toList_min_ne_max h)

theorem jaro_eq_one_iff {a b : String} : jaro id a b = 1 ↔ a = b := by
  constructor
  · intro hone
    by_contra h
    exact (jaro_lt_one h).ne hone
  · rintro rfl
    exact jaro_self id a

theorem jaro_le_one (a b : String) : jaro id a b ≤ 1 := by
  by_cases h : a = b
  · exact (jaro_eq_one_iff.mpr h).le
  · exact (jaro_lt_one h).le

theorem matched_nil_left (b : List Char) : (matched [] b).1 = [] :=
  List.sublist_nil.mp (matched_sublist_left [] b)

theorem matched_nil_right (a : List Char) : (matched a []).1 = [] := by
  have hright : (matched a []).2 = [] := List.sublist_nil.mp (matched_sublist_right a [])
  have hperm := matched_perm a []
  rw [hright] at hperm
  exact List.perm_nil.mp hperm

theorem jaro_eq_zero_iff {a b : String} (h : a ≠ b) :
    jaro id a b = 0 ↔ (matched (min a b).toList (max a b).toList).1 = [] := by
  rw [jaro_eq id h, orderedJaro_eq_zero_iff]

/-- Nothing is found in an empty text, whichever of the two it is. -/
theorem matched_of_empty {a b : String} (h : a = "" ∨ b = "") :
    (matched (min a b).toList (max a b).toList).1 = [] := by
  rcases le_total a b with hle | hle
  · rw [min_eq_left hle, max_eq_right hle]
    rcases h with rfl | rfl
    · exact matched_nil_left _
    · exact matched_nil_right _
  · rw [min_eq_right hle, max_eq_left hle]
    rcases h with rfl | rfl
    · exact matched_nil_right _
    · exact matched_nil_left _

/-! ## Common beginnings -/

theorem commonStart_le (a b : List Char) : commonStart a b ≤ maxCommonStart :=
  (List.takeWhile_sublist _).length_le.trans (List.length_take_le _ _)

/-- The gap to one that a common beginning leaves. -/
theorem jaroWinkler_id (a b : String) :
    jaroWinkler id a b =
      1 - (1 - (commonStart a.toList b.toList : Rat) / 10) * (1 - jaro id a b) := by
  have hstart : (commonStart a.toList b.toList : Rat) ≤ 4 := by
    exact_mod_cast commonStart_le a.toList b.toList
  have hgap : 0 ≤ 1 - jaro id a b := sub_nonneg.mpr (jaro_le_one a b)
  have hcloser : (commonStart a.toList b.toList : Rat) * (1 / 10 * (1 - jaro id a b)) +
      jaro id a b = 1 - (1 - (commonStart a.toList b.toList : Rat) / 10) * (1 - jaro id a b) := by
    ring
  have hle : 0 ≤ (1 - (commonStart a.toList b.toList : Rat) / 10) * (1 - jaro id a b) :=
    mul_nonneg (by linarith) hgap
  simp only [jaroWinkler, id_eq, hcloser]
  rw [if_pos (by linarith)]

theorem jaro_le_jaroWinkler (a b : String) : jaro id a b ≤ jaroWinkler id a b := by
  have hstart : (0 : Rat) ≤ commonStart a.toList b.toList := Nat.cast_nonneg _
  have hgap : 0 ≤ 1 - jaro id a b := sub_nonneg.mpr (jaro_le_one a b)
  have hgain : 0 ≤ (commonStart a.toList b.toList : Rat) / 10 * (1 - jaro id a b) :=
    mul_nonneg (by linarith) hgap
  rw [jaroWinkler_id]
  linarith

theorem jaroWinkler_le_one (a b : String) : jaroWinkler id a b ≤ 1 := by
  rw [jaroWinkler]
  split
  · assumption
  · exact le_refl 1

/-- A gap that is not closed by one to four tenths stays a gap. -/
theorem jaroWinkler_eq_one_iff {a b : String} : jaroWinkler id a b = 1 ↔ a = b := by
  rw [← jaro_eq_one_iff]
  constructor
  · intro hone
    have hstart : (commonStart a.toList b.toList : Rat) ≤ 4 := by
      exact_mod_cast commonStart_le a.toList b.toList
    rw [jaroWinkler_id, sub_eq_self] at hone
    rcases mul_eq_zero.mp hone with hleft | hgap
    · linarith
    · linarith
  · intro hone
    rw [jaroWinkler_id, hone, sub_self, mul_zero, sub_zero]

/-- Scores are symmetric, however they are rounded. Exact ones lie between zero and one, a common
beginning does not lower them, and each is one for equal texts only; the Jaro score is zero exactly
for different texts of which one is empty or in which no characters find each other. And the pass
that pairs the characters of any two texts looks at no place outside of them: it flags as many
characters of either text, and the same ones in some order. -/
theorem scores_separate_texts :
    (∀ (round : Rat → Rat) (a b : String), jaro round a b = jaro round b a ∧
      jaroWinkler round a b = jaroWinkler round b a) ∧
    (∀ a b : String, 0 ≤ jaro id a b ∧ jaro id a b ≤ jaroWinkler id a b ∧
      jaroWinkler id a b ≤ 1 ∧ (jaro id a b = 1 ↔ a = b) ∧ (jaroWinkler id a b = 1 ↔ a = b) ∧
      (jaro id a b = 0 ↔ a ≠ b ∧
        (a = "" ∨ b = "" ∨ (matched (min a b).toList (max a b).toList).1 = []))) ∧
    ∀ a b : List Char, ∃ found taken,
      pairByPlace? (window a b) b 0 a (List.replicate a.length false)
        (List.replicate b.length false) = some (found, taken) ∧
      matched a b = (flagged a found, flagged b taken) ∧
      (flagged a found).length = (flagged b taken).length ∧
      (flagged a found).Perm (flagged b taken) := by
  refine ⟨fun round a b => ⟨jaro_comm round a b, jaroWinkler_comm round a b⟩, fun a b => ?_,
    fun a b => ?_⟩
  · refine ⟨jaro_nonneg a b, jaro_le_jaroWinkler a b, jaroWinkler_le_one a b, jaro_eq_one_iff,
      jaroWinkler_eq_one_iff, ?_⟩
    constructor
    · intro hzero
      have h : a ≠ b := by
        rintro rfl
        exact one_ne_zero ((jaro_self id a).symm.trans hzero)
      exact ⟨h, .inr (.inr ((jaro_eq_zero_iff h).mp hzero))⟩
    · rintro ⟨h, hempty⟩
      rw [← or_assoc] at hempty
      exact (jaro_eq_zero_iff h).mpr (hempty.elim matched_of_empty id)
  · obtain ⟨found, taken, hpass, -, -, hmatched⟩ := exists_flags a b
    have hperm := matched_perm a b
    rw [hmatched] at hperm
    exact ⟨found, taken, hpass, hmatched, hperm.length_eq, hperm⟩

/-- Two letters that changed their places, with the three letters in front of them. -/
example : jaro id "martha" "marhta" = 17 / 18 ∧ jaroWinkler id "martha" "marhta" = 173 / 180 := by
  decide +kernel

end CiPipeline.Similarity
