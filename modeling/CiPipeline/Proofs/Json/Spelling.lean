import CiPipeline.Json.Basic
import Mathlib.Data.List.TakeWhile

/-!
# Spellings

All texts of a token and of a sequence of tokens: a string may spell a character plainly, by a
letter or by a unit in hexadecimal digits, and white space may stand around every token. A number
is described by its parts; main statement of this module: the numbers that the scanner takes are
exactly these.
-/

namespace CiPipeline.Json

/-! ## Numbers -/

/-- The whole part of a number, which starts with a zero only if it is zero. -/
inductive WholePart : List Char → Prop where
  | zero : WholePart ['0']
  | digits {first : Char} {rest : List Char} (hfirst : isDigit first = true) (hne : first ≠ '0')
      (hrest : ∀ c ∈ rest, isDigit c = true) : WholePart (first :: rest)

inductive FractionPart : List Char → Prop where
  | absent : FractionPart []
  | digits {first : Char} {rest : List Char} (hfirst : isDigit first = true)
      (hrest : ∀ c ∈ rest, isDigit c = true) : FractionPart ('.' :: first :: rest)

inductive ExponentPart : List Char → Prop where
  | absent : ExponentPart []
  | unsigned {marker : Char} {digits : List Char} (hmarker : marker = 'e' ∨ marker = 'E')
      (hne : digits ≠ []) (hdigits : ∀ c ∈ digits, isDigit c = true) :
      ExponentPart (marker :: digits)
  | signed {marker sign : Char} {digits : List Char} (hmarker : marker = 'e' ∨ marker = 'E')
      (hsign : sign = '+' ∨ sign = '-') (hne : digits ≠ [])
      (hdigits : ∀ c ∈ digits, isDigit c = true) : ExponentPart (marker :: sign :: digits)

/-- The text of a number. -/
inductive NumberText : List Char → Prop where
  | positive {whole fraction exponent : List Char} (hwhole : WholePart whole)
      (hfraction : FractionPart fraction) (hexponent : ExponentPart exponent) :
      NumberText (whole ++ (fraction ++ exponent))
  | negative {whole fraction exponent : List Char} (hwhole : WholePart whole)
      (hfraction : FractionPart fraction) (hexponent : ExponentPart exponent) :
      NumberText ('-' :: (whole ++ (fraction ++ exponent)))

/-- A text that does not go on with a digit. -/
def EndsDigits (text : List Char) : Prop := ∀ c ∈ text.head?, isDigit c = false

theorem dropWhile_digits_append {digits text : List Char} (h : ∀ c ∈ digits, isDigit c = true)
    (htext : EndsDigits text) : (digits ++ text).dropWhile isDigit = text := by
  rw [List.dropWhile_append_of_pos h]
  cases text with
  | nil => rfl
  | cons c text => rw [List.dropWhile_cons_of_neg (by simp [htext c rfl])]

theorem ExponentPart.endsDigits {text : List Char} (h : ExponentPart text) : EndsDigits text := by
  intro c hc
  cases h with
  | absent => cases hc
  | unsigned hmarker | signed hmarker =>
      cases hc
      rcases hmarker with rfl | rfl <;> rfl

theorem FractionPart.endsDigits {fraction exponent : List Char} (h : FractionPart fraction)
    (hexponent : ExponentPart exponent) : EndsDigits (fraction ++ exponent) := by
  cases h with
  | absent => exact hexponent.endsDigits
  | digits hfirst hrest =>
      rintro c ⟨⟩
      rfl

theorem isExponent_iff {text : List Char} : isExponent text = true ↔ ExponentPart text := by
  constructor
  · intro h
    cases text with
    | nil => exact .absent
    | cons marker rest =>
        simp only [isExponent, Bool.and_eq_true, Bool.or_eq_true, beq_iff_eq,
          Bool.not_eq_true', List.isEmpty_eq_false_iff, List.all_eq_true] at h
        obtain ⟨⟨hmarker, hne⟩, hdigits⟩ := h
        split at hne
        · exact .signed hmarker (.inl rfl) hne hdigits
        · exact .signed hmarker (.inr rfl) hne hdigits
        · exact .unsigned hmarker hne (by simpa using hdigits)
  · intro h
    cases h with
    | absent => rfl
    | @unsigned marker digits hmarker hne hdigits =>
        obtain ⟨first, rest, rfl⟩ := List.exists_cons_of_ne_nil hne
        have hfirst : isDigit first = true := hdigits first List.mem_cons_self
        have hplus : first ≠ '+' := by
          rintro rfl
          cases hfirst
        have hminus : first ≠ '-' := by
          rintro rfl
          cases hfirst
        simpa [isExponent, hmarker, hplus, hminus] using hdigits
    | signed hmarker hsign hne hdigits =>
        rcases hsign with rfl | rfl
        · simpa [isExponent, hmarker, hne] using hdigits
        · simpa [isExponent, hmarker, hne] using hdigits

theorem isFraction_iff {text : List Char} :
    isFraction text = true ↔
      ∃ fraction exponent, FractionPart fraction ∧ ExponentPart exponent ∧
        text = fraction ++ exponent := by
  constructor
  · intro h
    unfold isFraction at h
    split at h
    · rename_i digit rest
      rw [Bool.and_eq_true, isExponent_iff] at h
      refine ⟨'.' :: digit :: rest.takeWhile isDigit, rest.dropWhile isDigit, ?_, h.2, ?_⟩
      · exact .digits h.1 fun c hc => List.mem_takeWhile_imp hc
      · simp
    · exact ⟨[], text, .absent, isExponent_iff.mp h, rfl⟩
  · rintro ⟨fraction, exponent, hfraction, hexponent, rfl⟩
    cases hfraction with
    | absent =>
        rw [List.nil_append, isFraction]
        · exact isExponent_iff.mpr hexponent
        · rintro digit rest rfl
          cases hexponent with
          | unsigned hmarker | signed hmarker => rcases hmarker with h | h <;> cases h
    | digits hfirst hrest =>
        rw [List.cons_append, List.cons_append, isFraction, hfirst,
          dropWhile_digits_append hrest hexponent.endsDigits, isExponent_iff.mpr hexponent]
        rfl

theorem isSize_iff {text : List Char} :
    isSize text = true ↔
      ∃ whole fraction exponent, WholePart whole ∧ FractionPart fraction ∧
        ExponentPart exponent ∧ text = whole ++ (fraction ++ exponent) := by
  constructor
  · intro h
    unfold isSize at h
    split at h
    · obtain ⟨fraction, exponent, hfraction, hexponent, rfl⟩ := isFraction_iff.mp h
      exact ⟨['0'], fraction, exponent, .zero, hfraction, hexponent, rfl⟩
    · rename_i digit rest hne
      rw [Bool.and_eq_true, isFraction_iff] at h
      obtain ⟨hdigit, fraction, exponent, hfraction, hexponent, hrest⟩ := h
      refine ⟨digit :: rest.takeWhile isDigit, fraction, exponent, ?_, hfraction, hexponent, ?_⟩
      · exact .digits hdigit hne fun c hc => List.mem_takeWhile_imp hc
      · rw [List.cons_append, ← hrest, List.takeWhile_append_dropWhile]
    · cases h
  · rintro ⟨whole, fraction, exponent, hwhole, hfraction, hexponent, rfl⟩
    have hmore : isFraction (fraction ++ exponent) = true :=
      isFraction_iff.mpr ⟨fraction, exponent, hfraction, hexponent, rfl⟩
    cases hwhole with
    | zero => exact hmore
    | digits hfirst hne hrest =>
        rw [List.cons_append, isSize, hfirst,
          dropWhile_digits_append hrest (hfraction.endsDigits hexponent), hmore]
        · rfl
        · exact hne

/-- The scanner takes as numbers what is put together from the parts of one. -/
theorem isNumber_iff {text : List Char} : isNumber text = true ↔ NumberText text := by
  constructor
  · intro h
    unfold isNumber at h
    split at h
    · obtain ⟨whole, fraction, exponent, hwhole, hfraction, hexponent, rfl⟩ := isSize_iff.mp h
      exact .negative hwhole hfraction hexponent
    · obtain ⟨whole, fraction, exponent, hwhole, hfraction, hexponent, rfl⟩ := isSize_iff.mp h
      exact .positive hwhole hfraction hexponent
  · intro h
    cases h with
    | positive hwhole hfraction hexponent =>
        rw [isNumber]
        · exact isSize_iff.mpr ⟨_, _, _, hwhole, hfraction, hexponent, rfl⟩
        · rintro size hminus
          cases hwhole with
          | zero => cases hminus
          | digits hfirst =>
              cases hminus
              cases hfirst
    | negative hwhole hfraction hexponent =>
        exact isSize_iff.mpr ⟨_, _, _, hwhole, hfraction, hexponent, rfl⟩

/-! ## Strings -/

/-- The spellings of a piece of a string. -/
inductive Piece.SpelledAs : Piece → List Char → Prop where
  | plain {c : Char} (hquote : c ≠ '"') (hbackslash : c ≠ '\\') (hcontrol : 0x20 ≤ c.toNat) :
      Piece.SpelledAs (.char c) [c]
  | letter {letter c : Char} (h : escaped? letter = some c) :
      Piece.SpelledAs (.char c) ['\\', letter]
  | unit {first second third fourth : Char} {a b c d : Nat} (ha : Text.hexValue? first = some a)
      (hb : Text.hexValue? second = some b) (hc : Text.hexValue? third = some c)
      (hd : Text.hexValue? fourth = some d) :
      Piece.SpelledAs (.ofUnit (((a * 16 + b) * 16 + c) * 16 + d))
        ['\\', 'u', first, second, third, fourth]

inductive SpelledPieces : List Piece → List Char → Prop where
  | nil : SpelledPieces [] []
  | cons {piece : Piece} {pieces : List Piece} {text rest : List Char}
      (h : piece.SpelledAs text) (hrest : SpelledPieces pieces rest) :
      SpelledPieces (piece :: pieces) (text ++ rest)

/-! ## Tokens -/

/-- The spellings of a token. -/
inductive Token.SpelledAs : Token → List Char → Prop where
  | openArray : Token.SpelledAs .openArray ['[']
  | closeArray : Token.SpelledAs .closeArray [']']
  | openObject : Token.SpelledAs .openObject ['\x7b']
  | closeObject : Token.SpelledAs .closeObject ['\x7d']
  | comma : Token.SpelledAs .comma [',']
  | colon : Token.SpelledAs .colon [':']
  | word (word : Word) : Token.SpelledAs (.word word) word.spell
  | number {text : List Char} (h : NumberText text) : Token.SpelledAs (.number text) text
  | string {pieces : List Piece} {text : List Char} (h : SpelledPieces pieces text) :
      Token.SpelledAs (.string ((characters? pieces).map String.ofList)) ('"' :: (text ++ ['"']))

/-- The spellings of tokens one after the other, with white space around them. -/
inductive SpacedAs : List Token → List Char → Prop where
  | nil {gap : List Char} (hgap : ∀ c ∈ gap, isSpace c = true) : SpacedAs [] gap
  | cons {gap text rest : List Char} {token : Token} {tokens : List Token}
      (hgap : ∀ c ∈ gap, isSpace c = true) (htoken : token.SpelledAs text)
      (hrest : SpacedAs tokens rest) : SpacedAs (token :: tokens) (gap ++ (text ++ rest))

/-- The texts of a value. -/
def SpelledAs (value : Json) (text : List Char) : Prop := SpacedAs value.toTokens text

/-! ## The spellings that are written -/

theorem hexValue?_hexDigit : ∀ n < 16, Text.hexValue? (hexDigit n) = some n := by decide

theorem spelledAs_spellChar (c : Char) : (Piece.char c).SpelledAs (spellChar c) := by
  unfold spellChar
  split
  · exact .letter rfl
  · exact .letter rfl
  · exact .letter rfl
  · exact .letter rfl
  · exact .letter rfl
  · exact .letter rfl
  · exact .letter rfl
  · rename_i hquote hbackslash _ _ _ _ _
    split
    · rename_i hlt
      have hhigh := hexValue?_hexDigit (c.toNat / 16) (by omega)
      have hlow := hexValue?_hexDigit (c.toNat % 16) (by omega)
      have hunit : Piece.ofUnit (((0 * 16 + 0) * 16 + c.toNat / 16) * 16 + c.toNat % 16) =
          .char c := by
        rw [show ((0 * 16 + 0) * 16 + c.toNat / 16) * 16 + c.toNat % 16 = c.toNat by omega,
          Piece.ofUnit, if_neg (by omega), Char.ofNat_toNat]
      rw [← hunit]
      exact .unit rfl rfl hhigh hlow
    · rename_i hge
      exact .plain hquote hbackslash (by omega)

theorem spelledPieces_map_char (text : List Char) :
    SpelledPieces (text.map Piece.char) (text.flatMap spellChar) := by
  induction text with
  | nil => exact .nil
  | cons c text ih => exact .cons (spelledAs_spellChar c) ih

theorem characters?_map_char (text : List Char) :
    characters? (text.map Piece.char) = some text := by
  induction text with
  | nil => rfl
  | cons c text ih => simp [characters?, ih]

/-- A token that some text spells: its number, if it is one, is written as numbers are. -/
def Token.Readable : Token → Prop
  | .number text => isNumber text = true
  | _ => True

instance : DecidablePred Token.Readable
  | .number text => inferInstanceAs (Decidable (isNumber text = true))
  | .openArray | .closeArray | .openObject | .closeObject | .comma | .colon => .isTrue trivial
  | .word _ | .string _ => .isTrue trivial

theorem Token.spelledAs_spell {token : Token} (h : token.Readable) :
    token.SpelledAs token.spell := by
  cases token with
  | openArray => exact .openArray
  | closeArray => exact .closeArray
  | openObject => exact .openObject
  | closeObject => exact .closeObject
  | comma => exact .comma
  | colon => exact .colon
  | word word => exact .word word
  | number text => exact .number (isNumber_iff.mp h)
  | string content =>
      cases content with
      | none =>
          have hpiece : (Piece.ofUnit 0xD800).SpelledAs ['\\', 'u', 'd', '8', '0', '0'] :=
            .unit (a := 13) (b := 8) (c := 0) (d := 0) rfl rfl rfl rfl
          exact .string (.cons hpiece .nil)
      | some text =>
          have hstring := SpelledAs.string (spelledPieces_map_char text.toList)
          rwa [characters?_map_char, Option.map_some, String.ofList_toList] at hstring

/-- The text of tokens, each behind some white space. -/
def spellSpaced (tokens : List (List Char × Token)) : List Char :=
  tokens.flatMap fun (gap, token) => gap ++ token.spell

theorem spacedAs_spellSpaced {tokens : List (List Char × Token)}
    (hgaps : ∀ spaced ∈ tokens, ∀ c ∈ spaced.1, isSpace c = true)
    (hreadable : ∀ spaced ∈ tokens, spaced.2.Readable) :
    SpacedAs (tokens.map Prod.snd) (spellSpaced tokens) := by
  induction tokens with
  | nil => exact .nil (List.forall_mem_nil _)
  | cons spaced tokens ih =>
      rw [List.forall_mem_cons] at hgaps hreadable
      rw [List.map_cons, spellSpaced, List.flatMap_cons, List.append_assoc]
      exact .cons hgaps.1 (Token.spelledAs_spell hreadable.1) (ih hgaps.2 hreadable.2)

theorem spacedAs_spell {tokens : List Token} (h : ∀ token ∈ tokens, token.Readable) :
    SpacedAs tokens (tokens.flatMap Token.spell) := by
  have hspaced : SpacedAs ((tokens.map fun token => (([] : List Char), token)).map Prod.snd)
      (spellSpaced (tokens.map fun token => ([], token))) :=
    spacedAs_spellSpaced (by simp) (by simpa using h)
  simpa [spellSpaced, List.flatMap_map, Function.comp_def] using hspaced

end CiPipeline.Json
