/-!
# Blank characters

The white space of the Unicode character database, and what is left of a text once it is taken
off both ends. Everything here works on character lists, so that a text is cut by plain recursion.
-/

namespace CiPipeline.Text

/-- The code points with the property `White_Space`, as inclusive ranges. -/
def blankRanges : List (Nat × Nat) :=
  [(0x9, 0xD), (0x20, 0x20), (0x85, 0x85), (0xA0, 0xA0), (0x1680, 0x1680), (0x2000, 0x200A),
    (0x2028, 0x2029), (0x202F, 0x202F), (0x205F, 0x205F), (0x3000, 0x3000)]

/-- A character with the property `White_Space`. -/
def isBlank (c : Char) : Bool :=
  blankRanges.any fun range => range.1 ≤ c.toNat && c.toNat ≤ range.2

def trimLeft (text : List Char) : List Char := text.dropWhile isBlank

def trim (text : List Char) : List Char := (trimLeft (trimLeft text).reverse).reverse

/-- A text of blanks alone, the empty one included. -/
def allBlank (text : List Char) : Bool := text.all isBlank

/-- Cuts a text at its first blank, which belongs to neither part. -/
def cutAtBlank : List Char → Option (List Char × List Char)
  | [] => none
  | c :: rest =>
      if isBlank c then some ([], rest)
      else (cutAtBlank rest).map fun (word, rest) => (c :: word, rest)

/-- The first part holds no blank, and one blank joins the two parts back to the text. -/
theorem cutAtBlank_eq_some {text word rest : List Char} (h : cutAtBlank text = some (word, rest)) :
    word.all (fun c => !isBlank c) = true ∧
      ∃ blank, isBlank blank = true ∧ text = word ++ blank :: rest := by
  induction text generalizing word with
  | nil => simp [cutAtBlank] at h
  | cons c text ih =>
      by_cases hc : isBlank c = true
      · simp only [cutAtBlank, hc, if_true, Option.some.injEq, Prod.mk.injEq] at h
        obtain ⟨rfl, rfl⟩ := h
        exact ⟨rfl, c, hc, rfl⟩
      · simp only [cutAtBlank, hc, Bool.false_eq_true, if_false, Option.map_eq_some_iff,
          Prod.mk.injEq, Prod.exists] at h
        obtain ⟨word', rest', h, rfl, rfl⟩ := h
        obtain ⟨hword, blank, hblank, rfl⟩ := ih h
        exact ⟨by simp [hc, List.all_cons] at hword ⊢; exact hword, blank, hblank, rfl⟩

/-- Whether `part` occurs in the text as a run of neighbouring characters. -/
def contains (part : List Char) : List Char → Bool
  | [] => part.isEmpty
  | c :: rest => part.isPrefixOf (c :: rest) || contains part rest

/-- What stands between two copies of a quote character that open and close the text. -/
def unquote? (quote : Char) : List Char → Option (List Char)
  | [] => none
  | c :: rest =>
      if c = quote ∧ rest.getLast? = some quote then some rest.dropLast else none

end CiPipeline.Text
