import CiPipeline.Proofs.Json.Spelling
import Mathlib.Data.List.Chain

/-!
# Scanning spelled tokens

The scanner gives back the tokens that a text was spelled from, whatever spellings were chosen and
with any white space between them. Numbers and words have no end of their own, so two of them must
not touch.
-/

namespace CiPipeline.Json

/-- A token whose text ends only where something else begins. -/
def Token.isOpenEnded : Token → Bool
  | .word _ => true
  | .number _ => true
  | _ => false

/-- A text that goes on with neither a number nor a word. -/
def Breaks (text : List Char) : Prop :=
  ∀ c ∈ text.head?, isNumberChar c = false ∧ c.isLower = false

/-- A character that completes no token only moves the scanner. -/
theorem scanFrom?_cons {mode next : Mode} {c : Char} (h : step? mode c = some ([], next))
    (rest : List Char) : scanFrom? mode (c :: rest) = scanFrom? next rest := by
  simp [scanFrom?, h]

/-! ## Numbers and words -/

/-- What a finished token is followed by is scanned as if it stood alone. -/
theorem map_followedBy {token? : Option Token} {token : Token} (h : token? = some token) (c : Char)
    (rest : List Char) :
    (match followedBy token? c with
      | none => none
      | some (tokens, mode) => (scanFrom? mode rest).map (tokens ++ ·)) =
      (scanFrom? .between (c :: rest)).map (token :: ·) := by
  subst h
  cases hb : begin? c with
  | none => simp [followedBy, scanFrom?, step?, hb]
  | some first =>
      simp only [followedBy, scanFrom?, step?, hb, Option.bind_eq_bind, Option.bind_some,
        Option.pure_def, Option.map_map]
      rfl

theorem scanFrom?_inNumber {text : List Char} {token : Token} (h : numberToken? text = some token)
    {rest : List Char} (hrest : Breaks rest) :
    scanFrom? (.inNumber text) rest = (scanFrom? .between rest).map (token :: ·) := by
  cases rest with
  | nil => simp [scanFrom?, finish?, h]
  | cons c rest =>
      have hc : isNumberChar c = false := (hrest c rfl).1
      rw [← map_followedBy h, scanFrom?, step?, hc]
      rfl

theorem scanFrom?_inWord {text : List Char} {token : Token} (h : wordToken? text = some token)
    {rest : List Char} (hrest : Breaks rest) :
    scanFrom? (.inWord text) rest = (scanFrom? .between rest).map (token :: ·) := by
  cases rest with
  | nil => simp [scanFrom?, finish?, h]
  | cons c rest =>
      have hc : c.isLower = false := (hrest c rfl).2
      rw [← map_followedBy h, scanFrom?, step?, hc]
      rfl

theorem scanFrom?_inNumber_append (text : List Char) {more : List Char}
    (h : ∀ c ∈ more, isNumberChar c = true) (rest : List Char) :
    scanFrom? (.inNumber text) (more ++ rest) =
      scanFrom? (.inNumber (more.reverse ++ text)) rest := by
  induction more generalizing text with
  | nil => rfl
  | cons c more ih =>
      have hc : isNumberChar c = true := h c List.mem_cons_self
      have hstep : step? (.inNumber text) c = some ([], .inNumber (c :: text)) := by
        simp [step?, hc]
      rw [List.cons_append, scanFrom?_cons hstep,
        ih (c :: text) fun c hmem => h c (List.mem_cons_of_mem _ hmem)]
      simp

theorem scanFrom?_inWord_append (text : List Char) {more : List Char}
    (h : ∀ c ∈ more, c.isLower = true) (rest : List Char) :
    scanFrom? (.inWord text) (more ++ rest) =
      scanFrom? (.inWord (more.reverse ++ text)) rest := by
  induction more generalizing text with
  | nil => rfl
  | cons c more ih =>
      have hc : c.isLower = true := h c List.mem_cons_self
      have hstep : step? (.inWord text) c = some ([], .inWord (c :: text)) := by simp [step?, hc]
      rw [List.cons_append, scanFrom?_cons hstep,
        ih (c :: text) fun c hmem => h c (List.mem_cons_of_mem _ hmem)]
      simp

theorem isNumberChar_of_isDigit {c : Char} (h : isDigit c = true) : isNumberChar c = true := by
  simp [isNumberChar, h]

theorem isNumberChar_of_isExponent {text : List Char} (h : isExponent text = true) :
    ∀ c ∈ text, isNumberChar c = true := by
  have hdigits {digits : List Char} (hd : digits.all isDigit = true) :
      ∀ c ∈ digits, isNumberChar c = true :=
    fun c hc => isNumberChar_of_isDigit (List.all_eq_true.mp hd c hc)
  cases text with
  | nil => simp
  | cons marker rest =>
      simp only [isExponent, Bool.and_eq_true, Bool.or_eq_true, beq_iff_eq] at h
      obtain ⟨⟨hmarker, -⟩, hall⟩ := h
      have hfirst : isNumberChar marker = true := by
        rcases hmarker with rfl | rfl <;> rfl
      rw [List.forall_mem_cons]
      refine ⟨hfirst, ?_⟩
      split at hall
      · rw [List.forall_mem_cons]
        exact ⟨rfl, hdigits hall⟩
      · rw [List.forall_mem_cons]
        exact ⟨rfl, hdigits hall⟩
      · exact hdigits hall

theorem isNumberChar_of_dropWhile {text : List Char}
    (h : ∀ c ∈ text.dropWhile isDigit, isNumberChar c = true) :
    ∀ c ∈ text, isNumberChar c = true := by
  intro c hc
  rw [← List.takeWhile_append_dropWhile (p := isDigit) (l := text), List.mem_append] at hc
  rcases hc with hc | hc
  · exact isNumberChar_of_isDigit (List.mem_takeWhile_imp hc)
  · exact h c hc

theorem isNumberChar_of_isFraction {text : List Char} (h : isFraction text = true) :
    ∀ c ∈ text, isNumberChar c = true := by
  unfold isFraction at h
  split at h
  · rename_i digit rest
    rw [Bool.and_eq_true] at h
    rw [List.forall_mem_cons, List.forall_mem_cons]
    exact ⟨rfl, isNumberChar_of_isDigit h.1,
      isNumberChar_of_dropWhile (isNumberChar_of_isExponent h.2)⟩
  · exact isNumberChar_of_isExponent h

theorem isSize_cases {size : List Char} (h : isSize size = true) :
    ∃ first more, size = first :: more ∧ isDigit first = true ∧
      ∀ c ∈ more, isNumberChar c = true := by
  unfold isSize at h
  split at h
  · exact ⟨_, _, rfl, rfl, isNumberChar_of_isFraction h⟩
  · rw [Bool.and_eq_true] at h
    exact ⟨_, _, rfl, h.1, isNumberChar_of_dropWhile (isNumberChar_of_isFraction h.2)⟩
  · cases h

/-- A number starts with a digit or a minus and consists of characters of numbers. -/
theorem isNumber_cases {text : List Char} (h : isNumber text = true) :
    ∃ first more, text = first :: more ∧ (isDigit first = true ∨ first = '-') ∧
      ∀ c ∈ more, isNumberChar c = true := by
  unfold isNumber at h
  split at h
  · obtain ⟨first, more, rfl, hfirst, hmore⟩ := isSize_cases h
    refine ⟨'-', first :: more, rfl, .inr rfl, ?_⟩
    rw [List.forall_mem_cons]
    exact ⟨isNumberChar_of_isDigit hfirst, hmore⟩
  · obtain ⟨first, more, rfl, hfirst, hmore⟩ := isSize_cases h
    exact ⟨first, more, rfl, .inl hfirst, hmore⟩

theorem begin?_of_isDigit {c : Char} (h : isDigit c = true ∨ c = '-') :
    begin? c = some ([], .inNumber [c]) := by
  rcases h with h | rfl
  · have hspace : isSpace c = false := by
      rw [Bool.eq_false_iff]
      intro hs
      simp only [isSpace, Bool.or_eq_true, beq_iff_eq] at hs
      rcases hs with ((rfl | rfl) | rfl) | rfl <;> cases h
    simp [begin?, hspace, h]
  · rfl

theorem scanFrom?_number {text : List Char} (h : isNumber text = true) {rest : List Char}
    (hrest : Breaks rest) :
    scanFrom? .between (text ++ rest) = (scanFrom? .between rest).map (.number text :: ·) := by
  obtain ⟨first, more, rfl, hfirst, hmore⟩ := isNumber_cases h
  have htoken : numberToken? (more.reverse ++ [first]) = some (.number (first :: more)) := by
    simp [numberToken?, h]
  have hstep : step? .between first = some ([], .inNumber [first]) := begin?_of_isDigit hfirst
  have hbegin := scanFrom?_inNumber_append [first] hmore rest
  rw [scanFrom?_inNumber htoken hrest] at hbegin
  rw [List.cons_append, scanFrom?_cons hstep]
  exact hbegin

theorem scanFrom?_word (word : Word) {rest : List Char} (hrest : Breaks rest) :
    scanFrom? .between (word.spell ++ rest) = (scanFrom? .between rest).map (.word word :: ·) := by
  obtain ⟨first, more, hspell, hfirst, hmore⟩ : ∃ first more, word.spell = first :: more ∧
      step? .between first = some ([], .inWord [first]) ∧ ∀ c ∈ more, c.isLower = true := by
    cases word <;> exact ⟨_, _, rfl, rfl, List.all_eq_true.mp rfl⟩
  have htoken : wordToken? (more.reverse ++ [first]) = some (.word word) := by
    rw [← List.reverse_cons, ← hspell]
    cases word <;> decide
  have hbegin := scanFrom?_inWord_append [first] hmore rest
  rw [scanFrom?_inWord htoken hrest] at hbegin
  rw [hspell, List.cons_append, scanFrom?_cons hfirst]
  exact hbegin

/-! ## Strings -/

theorem scanFrom?_escape (pieces : List Piece) {letter c : Char} (h : escaped? letter = some c)
    (hu : letter ≠ 'u') (rest : List Char) :
    scanFrom? (.inString pieces) ('\\' :: letter :: rest) =
      scanFrom? (.inString (.char c :: pieces)) rest := by
  have hletter : step? (.inEscape pieces) letter = some ([], .inString (.char c :: pieces)) := by
    simp [step?, hu, h]
  exact (scanFrom?_cons rfl _).trans (scanFrom?_cons hletter rest)

/-- A digit that is not the last one of an escape. -/
theorem step?_inUnit {digit : Char} {value : Nat} (h : Text.hexValue? digit = some value)
    (pieces : List Piece) (missing unit : Nat) :
    step? (.inUnit pieces (missing + 1) unit) digit =
      some ([], .inUnit pieces missing (unit * 16 + value)) := by
  simp [step?, h]

/-- However a piece is spelled, it is scanned as this piece. -/
theorem scanFrom?_piece {piece : Piece} {text : List Char} (h : piece.SpelledAs text)
    (pieces : List Piece) (rest : List Char) :
    scanFrom? (.inString pieces) (text ++ rest) =
      scanFrom? (.inString (piece :: pieces)) rest := by
  cases h with
  | @plain c hquote hbackslash hcontrol =>
      have hplain : step? (.inString pieces) c = some ([], .inString (.char c :: pieces)) := by
        simp only [step?, if_neg hquote, if_neg hbackslash, if_neg (Nat.not_lt.mpr hcontrol)]
      exact scanFrom?_cons hplain rest
  | letter h =>
      have hu : ∀ letter c, escaped? letter = some c → letter ≠ 'u' := by
        rintro letter c h rfl
        cases h
      exact scanFrom?_escape pieces h (hu _ _ h) rest
  | @unit first second third fourth a b c d ha hb hc hd =>
      have hfourth : step? (.inUnit pieces 0 ((a * 16 + b) * 16 + c)) fourth =
          some ([], .inString (.ofUnit (((a * 16 + b) * 16 + c) * 16 + d) :: pieces)) := by
        simp [step?, hd]
      have hfirst : step? (.inUnit pieces 3 0) first = some ([], .inUnit pieces 2 a) := by
        simpa using step?_inUnit ha pieces 2 0
      calc
        scanFrom? (.inString pieces) ('\\' :: 'u' :: first :: second :: third :: fourth :: rest) =
            scanFrom? (.inUnit pieces 3 0) (first :: second :: third :: fourth :: rest) :=
          (scanFrom?_cons rfl _).trans (scanFrom?_cons rfl _)
        _ = scanFrom? (.inUnit pieces 0 ((a * 16 + b) * 16 + c)) (fourth :: rest) :=
          (scanFrom?_cons hfirst _).trans <| (scanFrom?_cons (step?_inUnit hb pieces 1 a) _).trans
            (scanFrom?_cons (step?_inUnit hc pieces 0 _) _)
        _ = scanFrom? (.inString (.ofUnit _ :: pieces)) rest := scanFrom?_cons hfourth rest

/-- The pieces that are scanned are kept newest first. -/
theorem scanFrom?_pieces {pieces : List Piece} {text : List Char} (h : SpelledPieces pieces text)
    (scanned : List Piece) (rest : List Char) :
    scanFrom? (.inString scanned) (text ++ rest) =
      scanFrom? (.inString (pieces.reverse ++ scanned)) rest := by
  induction h generalizing scanned with
  | nil => rfl
  | cons h _ ih =>
      rw [List.append_assoc, scanFrom?_piece h, ih]
      simp

theorem scanFrom?_string {pieces : List Piece} {text : List Char} (h : SpelledPieces pieces text)
    (rest : List Char) :
    scanFrom? .between ('"' :: (text ++ ['"']) ++ rest) =
      (scanFrom? .between rest).map
        (.string ((characters? pieces).map String.ofList) :: ·) := by
  have hstart : step? .between '"' = some ([], .inString []) := rfl
  have hend : scanFrom? (.inString pieces.reverse) ('"' :: rest) =
      (scanFrom? .between rest).map
        (.string ((characters? pieces).map String.ofList) :: ·) := by
    simp [scanFrom?, step?, contentOf]
  have hbody := scanFrom?_pieces h [] ('"' :: rest)
  rw [List.append_nil, hend] at hbody
  rw [List.cons_append, List.append_assoc, scanFrom?_cons hstart]
  exact hbody

/-! ## Texts -/

theorem scanFrom?_token {token : Token} {text : List Char} (h : token.SpelledAs text)
    {rest : List Char} (hrest : token.isOpenEnded = true → Breaks rest) :
    scanFrom? .between (text ++ rest) = (scanFrom? .between rest).map (token :: ·) := by
  cases h with
  | word word => exact scanFrom?_word word (hrest rfl)
  | number h => exact scanFrom?_number (isNumber_iff.mpr h) (hrest rfl)
  | string h => exact scanFrom?_string h rest
  | openArray | closeArray | openObject | closeObject | comma | colon => rfl

theorem scanFrom?_gap {gap : List Char} (h : ∀ c ∈ gap, isSpace c = true) (rest : List Char) :
    scanFrom? .between (gap ++ rest) = scanFrom? .between rest := by
  induction gap with
  | nil => rfl
  | cons c gap ih =>
      have hc : isSpace c = true := h c List.mem_cons_self
      have hstep : step? .between c = some ([], .between) := by simp [step?, begin?, hc]
      rw [List.cons_append, scanFrom?_cons hstep,
        ih fun c hmem => h c (List.mem_cons_of_mem _ hmem)]

theorem breaks_of_isSpace {c : Char} (h : isSpace c = true) (rest : List Char) :
    Breaks (c :: rest) := by
  rintro c ⟨⟩
  simp only [isSpace, Bool.or_eq_true, beq_iff_eq] at h
  rcases h with ((rfl | rfl) | rfl) | rfl <;> exact ⟨rfl, rfl⟩

theorem Token.SpelledAs.breaks {token : Token} {text : List Char} (h : token.SpelledAs text)
    (hends : token.isOpenEnded = false) (rest : List Char) : Breaks (text ++ rest) := by
  intro c hc
  cases h with
  | word | number => cases hends
  | string | openArray | closeArray | openObject | closeObject | comma | colon =>
      cases hc
      exact ⟨rfl, rfl⟩

/-- No two numbers or words follow each other. -/
def Separated (tokens : List Token) : Prop :=
  tokens.IsChain fun token next => token.isOpenEnded = true → next.isOpenEnded = false

/-- White space, or a token with an end of its own, may stand behind anything. -/
theorem SpacedAs.breaks {tokens : List Token} {text : List Char} (h : SpacedAs tokens text)
    (hends : ∀ next ∈ tokens.head?, next.isOpenEnded = false) : Breaks text := by
  cases h with
  | nil hgap =>
      cases text with
      | nil => rintro c ⟨⟩
      | cons c gap => exact breaks_of_isSpace (hgap c List.mem_cons_self) gap
  | @cons gap text rest token tokens hgap htoken hrest =>
      cases gap with
      | nil => exact htoken.breaks (hends token rfl) rest
      | cons c gap => exact breaks_of_isSpace (hgap c List.mem_cons_self) _

/-- Tokens are read back from any of their spellings, with any white space between them. -/
theorem tokens?_of_spacedAs {tokens : List Token} {text : List Char} (h : SpacedAs tokens text)
    (hseparated : Separated tokens) : tokens? text = some tokens := by
  unfold tokens?
  induction h with
  | @nil gap hgap =>
      have hend := scanFrom?_gap hgap []
      rw [List.append_nil] at hend
      simpa [scanFrom?, finish?] using hend
  | @cons gap text rest token tokens hgap htoken hrest ih =>
      have hbreaks : token.isOpenEnded = true → Breaks rest := by
        intro hopen
        apply hrest.breaks
        intro next hnext
        exact (List.isChain_cons.mp hseparated).1 next hnext hopen
      rw [scanFrom?_gap hgap, scanFrom?_token htoken hbreaks, ih hseparated.tail]
      rfl

end CiPipeline.Json
