import CiPipeline.Binary64

/-!
# Similarity of names

The Jaro and Jaro-Winkler scores of two texts, and the choice of the candidate that a misspelt
name most likely means. The scores are rationals computed with a rounding that is applied after
every operation: with `id` they are the exact scores, with `Binary64.nearest` those of doubles.
-/

namespace CiPipeline.Similarity

/-- A character of the second text, and whether a character of the first has taken it. -/
abbrev Slot := Char × Bool

/-- Takes the first free slot that holds `c` among those from position `low` on and below
`high`. -/
def claim? (low high : Nat) (c : Char) : List Slot → Option (List Slot)
  | [] => none
  | slot :: rest =>
      match low, high with
      | _, 0 => none
      | low + 1, high + 1 => (claim? low high c rest).map (slot :: ·)
      | 0, high + 1 =>
          if slot.2 = false ∧ slot.1 = c then some ((slot.1, true) :: rest)
          else (claim? 0 high c rest).map (slot :: ·)

/-- Lets the characters of a text, the first of which stands at position `i`, take slots within
`window` of their own positions, one after the other. Gives the characters that found a slot, and
the slots in the end. -/
def pair (window : Nat) : Nat → List Char → List Slot → List Char × List Slot
  | _, [], slots => ([], slots)
  | i, c :: rest, slots =>
      match claim? (i - window) (i + window + 1) c slots with
      | none => pair window (i + 1) rest slots
      | some slots =>
          let (found, slots) := pair window (i + 1) rest slots
          (c :: found, slots)

/-- The characters of two texts that found each other, in the order of either text. -/
def matched (a b : List Char) : List Char × List Char :=
  let window := max a.length b.length / 2 - 1
  let (found, slots) := pair window 0 a (b.map fun c => (c, false))
  (found, (slots.filter (·.2)).map (·.1))

def displaced (found taken : List Char) : Nat :=
  ((found.zip taken).filter fun (x, y) => x != y).length

/-- The score of two texts of which the first is not after the second in code point order. -/
def orderedJaro (round : Rat → Rat) (a b : List Char) : Rat :=
  if a.isEmpty || b.isEmpty then 0
  else
    let (found, taken) := matched a b
    if found.isEmpty then 0
    else
      let m : Rat := found.length
      let t := round ((displaced found taken : Rat) / 2)
      let shares := round (round (m / a.length) + round (m / b.length))
      let inOrder := round (round (m - t) / m)
      round (round (shares + inOrder) / 3)

/-- The Jaro score. The pairing depends on which text comes first, so the lesser one always
does. -/
def jaro (round : Rat → Rat) (a b : String) : Rat :=
  if a = b then 1
  else if a ≤ b then orderedJaro round a.toList b.toList
  else orderedJaro round b.toList a.toList

/-- How many characters a common beginning can bring. -/
def maxCommonStart : Nat := 4

def commonStart (a b : List Char) : Nat :=
  (((a.zip b).take maxCommonStart).takeWhile fun (x, y) => x == y).length

/-- The Jaro-Winkler score: a common beginning closes a tenth of the gap to one per character.
The last product and sum are rounded together. -/
def jaroWinkler (round : Rat → Rat) (a b : String) : Rat :=
  let score := jaro round a b
  let gain := round (round (1 / 10) * round (1 - score))
  let closer := round ((commonStart a.toList b.toList : Rat) * gain + score)
  if closer ≤ 1 then closer else 1

def threshold : Rat := 4 / 5

/-- The candidate of greatest score among those that reach a threshold, the earliest of several. -/
def best? (score : String → Rat) (threshold : Rat) (candidates : List String) : Option String :=
  let step (best : Option (String × Rat)) (candidate : String) : Option (String × Rat) :=
    let value := score candidate
    if value < threshold then best
    else
      match best with
      | none => some (candidate, value)
      | some (_, top) => if top < value then some (candidate, value) else best
  (candidates.foldl step none).map (·.1)

/-- The candidate that a name most likely means, scored with doubles. -/
def suggest? (name : String) (candidates : List String) : Option String :=
  best? (jaroWinkler Binary64.nearest name) (Binary64.nearest threshold) candidates

theorem jaro_self (round : Rat → Rat) (a : String) : jaro round a a = 1 := by simp [jaro]

end CiPipeline.Similarity
