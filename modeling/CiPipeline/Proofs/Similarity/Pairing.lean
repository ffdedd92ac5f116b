import CiPipeline.Similarity
import Mathlib.Data.List.Basic

/-!
# The pairing of two texts

The characters of the first text take characters of the second one, each the first free one that is
near enough. Main statements: what is taken is what found something, in another order; and the pass
that goes by places, with a flag for each place of either text, never looks outside of them.
-/

namespace CiPipeline.Similarity

/-! ## Slots -/

/-- The characters that have been taken. -/
def holders (slots : List Slot) : List Char := (slots.filter (·.2)).map (·.1)

theorem holders_cons (slot : Slot) (slots : List Slot) :
    holders (slot :: slots) = if slot.2 then slot.1 :: holders slots else holders slots := by
  rcases slot with ⟨c, _ | _⟩ <;> rfl

theorem holders_sublist (slots : List Slot) : (holders slots).Sublist (slots.map Prod.fst) :=
  List.filter_sublist.map _

/-- One more character is taken, and nothing else changes. -/
structure Claims (c : Char) (slots next : List Slot) : Prop where
  texts : next.map Prod.fst = slots.map Prod.fst
  holders : (holders next).Perm (c :: holders slots)

theorem Claims.cons {c : Char} {slots next : List Slot} (h : Claims c slots next) (slot : Slot) :
    Claims c (slot :: slots) (slot :: next) where
  texts := by rw [List.map_cons, List.map_cons, h.texts]
  holders := by
    rw [holders_cons, holders_cons]
    split
    · exact (h.holders.cons slot.1).trans (.swap c slot.1 _)
    · exact h.holders

theorem claims_claim? {low high : Nat} {c : Char} {slots next : List Slot}
    (h : claim? low high c slots = some next) : Claims c slots next := by
  induction slots generalizing low high next with
  | nil =>
      rw [claim?] at h
      cases h
  | cons slot rest ih =>
      cases high with
      | zero => cases low <;> cases h
      | succ high =>
          cases low with
          | zero =>
              rw [claim?] at h
              split at h
              · next hfree =>
                  cases h
                  refine ⟨rfl, ?_⟩
                  rw [holders_cons, holders_cons, hfree.1, hfree.2]
                  exact .refl _
              · obtain ⟨found, hfound, rfl⟩ := Option.map_eq_some_iff.mp h
                exact (ih hfound).cons slot
          | succ low =>
              obtain ⟨found, hfound, rfl⟩ := Option.map_eq_some_iff.mp h
              exact (ih hfound).cons slot

/-! ## The pass -/

/-- What a pass leaves: some of its characters found a slot, and just these were taken. -/
structure Pairs (text : List Char) (slots : List Slot) (result : List Char × List Slot) : Prop where
  found : result.1.Sublist text
  texts : result.2.map Prod.fst = slots.map Prod.fst
  holders : (holders result.2).Perm (result.1 ++ holders slots)

theorem pairs_pair (window i : Nat) (text : List Char) (slots : List Slot) :
    Pairs text slots (pair window i text slots) := by
  induction text generalizing i slots with
  | nil => exact ⟨List.Sublist.refl _, rfl, .refl _⟩
  | cons c rest ih =>
      rw [pair]
      cases hclaim : claim? (i - window) (i + window + 1) c slots with
      | none =>
          have hrest := ih (i + 1) slots
          exact ⟨hrest.found.cons c, hrest.texts, hrest.holders⟩
      | some next =>
          have hfirst := claims_claim? hclaim
          have hrest := ih (i + 1) next
          refine ⟨hrest.found.cons_cons c, hrest.texts.trans hfirst.texts, ?_⟩
          have hall := hrest.holders.trans (hfirst.holders.append_left _)
          exact hall.trans List.perm_middle

/-- How far apart two characters may stand that find each other. -/
def window (a b : List Char) : Nat := max a.length b.length / 2 - 1

/-- All characters of a text, and none of them taken yet. -/
def freeSlots (b : List Char) : List Slot := b.map fun c => (c, false)

theorem matched_eq (a b : List Char) :
    matched a b = ((pair (window a b) 0 a (freeSlots b)).1,
      holders (pair (window a b) 0 a (freeSlots b)).2) := rfl

theorem matched_sublist_left (a b : List Char) : (matched a b).1.Sublist a :=
  (pairs_pair (window a b) 0 a (freeSlots b)).found

theorem matched_sublist_right (a b : List Char) : (matched a b).2.Sublist b := by
  have hsublist := holders_sublist (pair (window a b) 0 a (freeSlots b)).2
  have htexts := (pairs_pair (window a b) 0 a (freeSlots b)).texts
  have hfree : (freeSlots b).map Prod.fst = b := by simp [freeSlots, Function.comp_def]
  rwa [htexts, hfree] at hsublist

/-- The characters that found each other are the same in both texts, but for their order. -/
theorem matched_perm (a b : List Char) : (matched a b).1.Perm (matched a b).2 := by
  have hholders := (pairs_pair (window a b) 0 a (freeSlots b)).holders
  have hfree : holders (freeSlots b) = [] := by simp [holders, freeSlots]
  rw [hfree, List.append_nil] at hholders
  exact hholders.symm

/-! ## The pass by places -/

/-- The first of so many places from one on where the character stands and is not taken. An access
outside of the text or its flags ends the search without an answer. -/
def seek? (b : List Char) (taken : List Bool) (c : Char) : Nat → Nat → Option (Option Nat)
  | 0, _ => some none
  | steps + 1, place => do
      let flag ← taken[place]?
      let other ← b[place]?
      if flag = false ∧ other = c then pure (some place) else seek? b taken c steps (place + 1)

/-- The flags with one more set, which must be one of them. -/
def mark? (flags : List Bool) (place : Nat) : Option (List Bool) :=
  if place < flags.length then some (flags.set place true) else none

/-- The pass with a flag for each place of the first text that found something, and for each place
of the second one that is taken. The search is limited to places of the second text. -/
def pairByPlace? (window : Nat) (b : List Char) :
    Nat → List Char → List Bool → List Bool → Option (List Bool × List Bool)
  | _, [], found, taken => some (found, taken)
  | i, c :: rest, found, taken => do
      let start := i - window
      let stop := min (i + window + 1) b.length
      match ← seek? b taken c (stop - start) start with
      | none => pairByPlace? window b (i + 1) rest found taken
      | some place => do
          let found ← mark? found i
          let taken ← mark? taken place
          pairByPlace? window b (i + 1) rest found taken

/-- The characters whose flags are set. -/
def flagged (text : List Char) (flags : List Bool) : List Char := holders (text.zip flags)

theorem claim?_of_le {low high : Nat} (h : high ≤ low) (c : Char) (slots : List Slot) :
    claim? low high c slots = none := by
  induction slots generalizing low high with
  | nil => rw [claim?]
  | cons slot rest ih =>
      cases high with
      | zero => cases low <;> rfl
      | succ high =>
          cases low with
          | zero => omega
          | succ low => rw [claim?, ih (by omega), Option.map_none]

/-- Places behind the last slot are never claimed. -/
theorem claim?_min (low high : Nat) (c : Char) (slots : List Slot) :
    claim? low (min high slots.length) c slots = claim? low high c slots := by
  induction slots generalizing low high with
  | nil => rw [claim?, claim?]
  | cons slot rest ih =>
      cases high with
      | zero => rw [Nat.zero_min]
      | succ high =>
          rw [List.length_cons, Nat.add_min_add_right]
          cases low with
          | zero => rw [claim?, claim?, ih]
          | succ low => rw [claim?, claim?, ih]

/-- A slot is claimed where the search begins, or else behind it. -/
theorem claim?_step {place high : Nat} (hplace : place < high) (c : Char) {slots : List Slot}
    {slot : Slot} (hslot : slots[place]? = some slot) :
    claim? place high c slots =
      if slot.2 = false ∧ slot.1 = c then some (slots.set place (slot.1, true))
      else claim? (place + 1) high c slots := by
  induction slots generalizing place high with
  | nil => cases hslot
  | cons first rest ih =>
      obtain ⟨high, rfl⟩ : ∃ lower, high = lower + 1 := ⟨high - 1, by omega⟩
      cases place with
      | zero =>
          cases hslot
          rw [claim?, claim?]
          rfl
      | succ place =>
          rw [List.getElem?_cons_succ] at hslot
          rw [claim?, ih (by omega) hslot, claim?]
          split <;> rfl

theorem zip_set_of_getElem? {text : List Char} {c : Char} {place : Nat}
    (h : text[place]? = some c) (flags : List Bool) (flag : Bool) :
    (text.zip flags).set place (c, flag) = text.zip (flags.set place flag) := by
  induction text generalizing place flags with
  | nil => cases h
  | cons first text ih =>
      cases flags with
      | nil => rfl
      | cons head flags =>
          cases place with
          | zero =>
              cases h
              rfl
          | succ place =>
              rw [List.getElem?_cons_succ] at h
              rw [List.zip_cons_cons, List.set_cons_succ, ih h, List.set_cons_succ,
                List.zip_cons_cons]

/-- Inside the text the search has an answer, and it is the slot that is claimed. -/
theorem seek?_eq_some {b : List Char} {taken : List Bool} (hlength : taken.length = b.length)
    (c : Char) {steps place : Nat} (h : place + steps ≤ b.length) :
    ∃ answer, seek? b taken c steps place = some answer ∧
      (∀ found ∈ answer, found < b.length) ∧
      claim? place (place + steps) c (b.zip taken) =
        answer.map fun found => b.zip (taken.set found true) := by
  induction steps generalizing place with
  | zero => exact ⟨none, rfl, by simp, claim?_of_le (Nat.le_refl _) c _⟩
  | succ steps ih =>
      have hplace : place < b.length := by omega
      have hflag := List.getElem?_eq_getElem (hlength ▸ hplace)
      have hother := List.getElem?_eq_getElem hplace
      have hslot : (b.zip taken)[place]? = some (b[place], taken[place]) := by
        rw [List.getElem?_zip_eq_some]
        exact ⟨hother, hflag⟩
      have hrest : place + 1 + steps ≤ b.length := by omega
      obtain ⟨answer, hseek, hinside, hclaim⟩ := ih hrest
      rw [seek?, hflag, hother, claim?_step (by omega) c hslot]
      simp only [Option.bind_eq_bind, Option.bind_some]
      split
      · next hfree =>
          refine ⟨some place, rfl, by simpa using hplace, ?_⟩
          rw [Option.map_some, zip_set_of_getElem? hother]
      · refine ⟨answer, hseek, hinside, ?_⟩
        rw [← hclaim]
        congr 1
        omega

/-- The search among the places of the text claims what the unlimited one does. -/
theorem seek?_window {b : List Char} {taken : List Bool} (hlength : taken.length = b.length)
    (window i : Nat) (c : Char) :
    ∃ answer, seek? b taken c (min (i + window + 1) b.length - (i - window)) (i - window) =
        some answer ∧
      (∀ found ∈ answer, found < b.length) ∧
      claim? (i - window) (i + window + 1) c (b.zip taken) =
        answer.map fun found => b.zip (taken.set found true) := by
  have hslots : (b.zip taken).length = b.length := by
    rw [List.length_zip, hlength, Nat.min_self]
  rw [← claim?_min, hslots]
  by_cases hstart : i - window ≤ min (i + window + 1) b.length
  · have hsteps := Nat.add_sub_of_le hstart
    have hstop := Nat.le_trans (Nat.le_of_eq hsteps) (Nat.min_le_right _ b.length)
    have hanswer := seek?_eq_some hlength c hstop
    rwa [hsteps] at hanswer
  · have hnone : min (i + window + 1) b.length - (i - window) = 0 := by omega
    rw [hnone]
    exact ⟨none, rfl, by simp, claim?_of_le (by omega) c _⟩

/-- No place outside of either text is looked at, and the flags tell what the pass finds. The flags
of the characters that are still to come are not set yet. -/
theorem pairByPlace?_eq_some (window : Nat) {b : List Char} (rest : List Char) {i : Nat}
    {front taken : List Bool} (hfront : front.length = i) (htaken : taken.length = b.length) :
    ∃ more last,
      pairByPlace? window b i rest (front ++ List.replicate rest.length false) taken =
        some (front ++ more, last) ∧
      more.length = rest.length ∧ last.length = b.length ∧
      pair window i rest (b.zip taken) = (flagged rest more, b.zip last) := by
  -- `front` grows by the flag of each character that the pass has left behind
  induction rest generalizing i front taken with
  | nil => exact ⟨[], taken, rfl, rfl, htaken, rfl⟩
  | cons c rest ih =>
      obtain ⟨answer, hseek, hinside, hclaim⟩ := seek?_window htaken window i c
      have hnext (flag : Bool) : (front ++ [flag]).length = i + 1 := by
        rw [List.length_append, List.length_singleton, hfront]
      rw [pairByPlace?, pair, hseek, hclaim]
      simp only [Option.bind_eq_bind, Option.bind_some]
      cases answer with
      | none =>
          obtain ⟨more, last, hpass, hmore, hlast, hpair⟩ := ih (hnext false) htaken
          refine ⟨false :: more, last, ?_, by simp [hmore], hlast, ?_⟩
          · simpa [List.replicate_succ] using hpass
          · simp [hpair, flagged, holders_cons]
      | some place =>
          have hplace : place < taken.length := by
            rw [htaken]
            exact hinside place rfl
          have hmark : mark? (front ++ List.replicate (c :: rest).length false) i =
              some ((front ++ [true]) ++ List.replicate rest.length false) := by
            rw [mark?, if_pos (by simp [hfront]), ← hfront]
            simp [List.replicate_succ]
          have hset : (taken.set place true).length = b.length := by rw [List.length_set, htaken]
          obtain ⟨more, last, hpass, hmore, hlast, hpair⟩ := ih (hnext true) hset
          refine ⟨true :: more, last, ?_, by simp [hmore], hlast, ?_⟩
          · have hmarkPlace : mark? taken place = some (taken.set place true) := if_pos hplace
            simpa only [hmark, hmarkPlace, Option.bind_some, List.append_assoc,
              List.singleton_append] using hpass
          · simp [hpair, flagged, holders_cons]

/-- The flags of the whole pass. -/
theorem exists_flags (a b : List Char) :
    ∃ found taken,
      pairByPlace? (window a b) b 0 a (List.replicate a.length false)
        (List.replicate b.length false) = some (found, taken) ∧
      found.length = a.length ∧ taken.length = b.length ∧
      matched a b = (flagged a found, flagged b taken) := by
  have hfree : freeSlots b = b.zip (List.replicate b.length false) := by
    induction b with
    | nil => rfl
    | cons c b ih => exact congrArg ((c, false) :: ·) ih
  obtain ⟨found, taken, hpass, hfound, htaken, hpair⟩ :=
    pairByPlace?_eq_some (window a b) a (List.length_nil : ([] : List Bool).length = 0)
      (List.length_replicate : (List.replicate b.length false).length = b.length)
  refine ⟨found, taken, hpass, hfound, htaken, ?_⟩
  rw [matched_eq, hfree, hpair, flagged, flagged]

end CiPipeline.Similarity
