import CiPipeline.Glob.Matching
import CiPipeline.Proofs.Text.Utf8
import Mathlib.Data.List.Basic
import Mathlib.Data.List.Infix

/-!
# What a pattern accepts

Each element of a pattern stands for a set of byte strings, and a sequence of elements for what is
put together from them. Main statement: the rows decide just that, so a pattern accepts the subjects
that its elements stand for.
-/

namespace CiPipeline.Glob

/-! ## What elements stand for -/

def slash : UInt8 := 47

mutual

/-- The byte strings that an element stands for. -/
def Element.Spells : Element → Bytes → Prop
  | .literal c, text => text = String.utf8EncodeChar c
  | .anyByte, text => ∃ b, text = [b]
  | .anyBytes, _ => True
  | .leadingPath, text => text = [] ∨ ∃ front, text = front ++ [slash]
  | .trailingPath, text => ∃ back, text = slash :: back
  | .innerPath, text => text = [slash] ∨ ∃ middle, text = slash :: (middle ++ [slash])
  | .bytes bytes, text => ∃ b, text = [b] ∧ bytes.has b = true
  | .oneOf branches, text => if allVoid branches then text = [] else AnySpells branches text

/-- The byte strings that are put together from those of the elements. -/
def SequenceSpells : List Element → Bytes → Prop
  | [], text => text = []
  | element :: rest, text =>
      ∃ front back, text = front ++ back ∧ element.Spells front ∧ SequenceSpells rest back

/-- The byte strings of the branches that stand for some text. -/
def AnySpells : List (List Element) → Bytes → Prop
  | [], _ => False
  | branch :: rest, text =>
      (sequenceIsVoid branch = false ∧ SequenceSpells branch text) ∨ AnySpells rest text

end

/-! ## Marks -/

/-- The row has a mark behind the part of the subject. -/
def Row.Marks (row : Row) (front : Bytes) : Prop := row[front.length]? = some true

theorem marks_union {row other : Row} (hlength : row.length = other.length) {front : Bytes}
    (hplace : front.length < row.length) :
    (union row other).Marks front ↔ row.Marks front ∨ other.Marks front := by
  simp only [Row.Marks, union, List.getElem?_zipWith, List.getElem?_eq_getElem hplace,
    List.getElem?_eq_getElem (hlength ▸ hplace)]
  simp

/-- A mark behind a byte comes from one in front of it. -/
theorem marks_advance_concat {accept : UInt8 → Bool} {subject : Bytes} {row : Row}
    {before : Bytes} {b : UInt8} (hbyte : subject[before.length]? = some b)
    (hplace : before.length < row.length) :
    (advance accept subject row).Marks (before ++ [b]) ↔
      row.Marks before ∧ accept b = true := by
  simp only [Row.Marks, advance, List.length_append, List.length_singleton,
    List.getElem?_cons_succ, List.getElem?_zipWith, hbyte, List.getElem?_eq_getElem hplace]
  simp

/-- Marks are spread to all places behind them; `seen` stands for one in front of the row. -/
theorem getElem?_spread_go (seen : Bool) (row : Row) (place : Nat) :
    (spread.go seen row)[place]? = some true ↔
      place < row.length ∧ (seen = true ∨ ∃ i ≤ place, row[i]? = some true) := by
  induction row generalizing seen place with
  | nil => simp [spread.go]
  | cons mark row ih =>
      cases place with
      | zero => simp [spread.go]
      | succ place =>
          simp only [spread.go, List.getElem?_cons_succ, ih, List.length_cons,
            Nat.add_lt_add_iff_right, Bool.or_eq_true, or_assoc]
          refine and_congr_right fun _ => or_congr_right ?_
          constructor
          · rintro (hmark | ⟨i, hi, hrow⟩)
            · exact ⟨0, Nat.zero_le _, by rw [List.getElem?_cons_zero, hmark]⟩
            · exact ⟨i + 1, Nat.succ_le_succ hi, hrow⟩
          · rintro ⟨i, hi, hrow⟩
            cases i with
            | zero => exact .inl (by simpa using hrow)
            | succ i => exact .inr ⟨i, Nat.le_of_succ_le_succ hi, hrow⟩

/-- From one row to the next, marks are moved over exactly the byte strings of a kind. -/
structure Moves (subject : Bytes) (row next : Row) (Spells : Bytes → Prop) : Prop where
  length : next.length = subject.length + 1
  marks_iff : ∀ front back, subject = front ++ back →
    (next.Marks front ↔ ∃ before text, front = before ++ text ∧ row.Marks before ∧ Spells text)

namespace Moves

variable {subject : Bytes} {row next last other : Row} {Spells More : Bytes → Prop}

theorem congr (h : Moves subject row next Spells) (hsame : ∀ text, Spells text ↔ More text) :
    Moves subject row next More where
  length := h.length
  marks_iff front back hsubject := by
    simp only [h.marks_iff front back hsubject, hsame]

theorem refl (h : row.length = subject.length + 1) : Moves subject row row (· = []) where
  length := h
  marks_iff front back _ := by
    constructor
    · intro hmarks
      exact ⟨front, [], (List.append_nil front).symm, hmarks, rfl⟩
    · rintro ⟨before, text, rfl, hmarks, rfl⟩
      rwa [List.append_nil]

/-- What is moved twice is moved over two strings, one behind the other. -/
theorem trans (h : Moves subject row next Spells) (hnext : Moves subject next last More) :
    Moves subject row last
      (fun text => ∃ front back, text = front ++ back ∧ Spells front ∧ More back) where
  length := hnext.length
  marks_iff front back hsubject := by
    rw [hnext.marks_iff front back hsubject]
    constructor
    · rintro ⟨middle, text, rfl, hmiddle, htext⟩
      rw [List.append_assoc] at hsubject
      obtain ⟨before, first, rfl, hbefore, hfirst⟩ := (h.marks_iff middle _ hsubject).mp hmiddle
      exact ⟨before, first ++ text, List.append_assoc _ _ _, hbefore, first, text, rfl, hfirst,
        htext⟩
    · rintro ⟨before, whole, rfl, hbefore, first, text, rfl, hfirst, htext⟩
      refine ⟨before ++ first, text, (List.append_assoc _ _ _).symm, ?_, htext⟩
      have hmiddle : subject = (before ++ first) ++ (text ++ back) := by
        simp [hsubject]
      exact (h.marks_iff _ _ hmiddle).mpr ⟨before, first, rfl, hbefore, hfirst⟩

theorem union (h : Moves subject row next Spells) (hother : Moves subject row other More) :
    Moves subject row (Glob.union next other) (fun text => Spells text ∨ More text) where
  length := by
    rw [Glob.union, List.length_zipWith, h.length, hother.length, Nat.min_self]
  marks_iff front back hsubject := by
    have hplace : front.length < subject.length + 1 := by
      rw [hsubject, List.length_append]
      omega
    have hsame : next.length = other.length := h.length.trans hother.length.symm
    rw [marks_union hsame (h.length ▸ hplace), h.marks_iff front back hsubject,
      hother.marks_iff front back hsubject]
    constructor
    · rintro (⟨before, text, hfront, hbefore, htext⟩ | ⟨before, text, hfront, hbefore, htext⟩)
      · exact ⟨before, text, hfront, hbefore, .inl htext⟩
      · exact ⟨before, text, hfront, hbefore, .inr htext⟩
    · rintro ⟨before, text, hfront, hbefore, htext | htext⟩
      · exact .inl ⟨before, text, hfront, hbefore, htext⟩
      · exact .inr ⟨before, text, hfront, hbefore, htext⟩

/-- A row without marks is where nothing leads. -/
theorem none (h : row.length = subject.length + 1) :
    Moves subject row (row.map fun _ => false) (fun _ => False) where
  length := by rw [List.length_map, h]
  marks_iff front back _ := by
    simp [Row.Marks, List.getElem?_replicate]

theorem advance (h : row.length = subject.length + 1) (accept : UInt8 → Bool) :
    Moves subject row (Glob.advance accept subject row)
      (fun text => ∃ b, text = [b] ∧ accept b = true) where
  length := length_advance h
  marks_iff front back hsubject := by
    cases front using List.reverseRecOn with
    | nil =>
        simp only [Row.Marks, Glob.advance, List.length_nil, List.getElem?_cons_zero]
        simp
    | append_singleton before b =>
        have hbyte : subject[before.length]? = some b := by
          simp [hsubject]
        have hplace : before.length < row.length := by
          rw [h, hsubject, List.length_append, List.length_append]
          omega
        rw [marks_advance_concat hbyte hplace]
        constructor
        · rintro ⟨hmarks, haccept⟩
          exact ⟨before, [b], rfl, hmarks, b, rfl, haccept⟩
        · rintro ⟨found, text, hfront, hmarks, c, rfl, haccept⟩
          obtain ⟨rfl, hlast⟩ := List.append_inj' hfront rfl
          obtain ⟨rfl⟩ := List.singleton_inj.mp hlast
          exact ⟨hmarks, haccept⟩

theorem spread (h : row.length = subject.length + 1) :
    Moves subject row (Glob.spread row) (fun _ => True) where
  length := by rw [length_spread, h]
  marks_iff front back hsubject := by
    have hplace : front.length < row.length := by
      rw [h, hsubject, List.length_append]
      omega
    have hspread : (Glob.spread row).Marks front ↔ ∃ i ≤ front.length, row[i]? = some true := by
      rw [Row.Marks, Glob.spread, getElem?_spread_go]
      simp [hplace]
    rw [hspread]
    constructor
    · rintro ⟨i, hi, hrow⟩
      refine ⟨front.take i, front.drop i, (List.take_append_drop i front).symm, ?_, trivial⟩
      rwa [Row.Marks, List.length_take, Nat.min_eq_left hi]
    · rintro ⟨before, text, rfl, hmarks, -⟩
      exact ⟨before.length, by simp, hmarks⟩

/-- A mark is moved over a character byte by byte. -/
theorem literal (h : row.length = subject.length + 1) (bytes : Bytes) :
    Moves subject row (bytes.foldl (fun row b => Glob.advance (· == b) subject row) row)
      (· = bytes) := by
  induction bytes generalizing row with
  | nil => exact refl h
  | cons b bytes ih =>
      have hfirst := advance h (· == b)
      refine (hfirst.trans (ih hfirst.length)).congr fun text => ?_
      simp

end Moves

/-! ## Rows of elements -/

section

variable (subject : Bytes)

/-- A mark is moved over a byte that is a slash. -/
theorem moves_slash {row : Row} (h : row.length = subject.length + 1) :
    Moves subject row (advance isSlash subject row) (· = [slash]) := by
  refine (Moves.advance h isSlash).congr fun text => ?_
  simp [isSlash, slash]

mutual

/-- Each element moves the marks over what it stands for. -/
theorem Element.moves_run (element : Element) {row : Row}
    (h : row.length = subject.length + 1) :
    Moves subject row (element.run subject row) element.Spells := by
  cases element with
  | literal c => exact (Moves.literal h _).congr fun text => by rw [Element.Spells]
  | anyByte =>
      refine (Moves.advance h fun _ => true).congr fun text => ?_
      simp [Element.Spells]
  | anyBytes =>
      refine (Moves.spread h).congr fun text => ?_
      simp [Element.Spells]
  | leadingPath =>
      have hspread := Moves.spread h
      have hslash := moves_slash subject hspread.length
      refine ((Moves.refl h).union (hspread.trans hslash)).congr fun text => ?_
      simp [Element.Spells]
  | trailingPath =>
      have hslash := moves_slash subject h
      refine (hslash.trans (Moves.spread hslash.length)).congr fun text => ?_
      simp [Element.Spells]
  | innerPath =>
      have hslash := moves_slash subject h
      have hspread := hslash.trans (Moves.spread hslash.length)
      have hlast := hspread.trans (moves_slash subject hspread.length)
      refine (hslash.union hlast).congr fun text => ?_
      simp [Element.Spells]
  | bytes bytes =>
      refine (Moves.advance h bytes.has).congr fun text => ?_
      rw [Element.Spells]
  | oneOf branches =>
      rw [Element.run]
      by_cases hvoid : allVoid branches = true
      · rw [if_pos hvoid]
        exact (Moves.refl h).congr fun text => by rw [Element.Spells, if_pos hvoid]
      · rw [if_neg hvoid]
        exact (moves_runAny branches h).congr fun text => by rw [Element.Spells, if_neg hvoid]

theorem moves_runSequence (elements : List Element) {row : Row}
    (h : row.length = subject.length + 1) :
    Moves subject row (runSequence subject elements row) (SequenceSpells elements) := by
  cases elements with
  | nil => exact (Moves.refl h).congr fun text => by rw [SequenceSpells]
  | cons element rest =>
      have hfirst := element.moves_run h
      refine (hfirst.trans (moves_runSequence rest hfirst.length)).congr fun text => ?_
      rw [SequenceSpells]

theorem moves_runAny (branches : List (List Element)) {row : Row}
    (h : row.length = subject.length + 1) :
    Moves subject row (runAny subject branches row) (AnySpells branches) := by
  cases branches with
  | nil => exact (Moves.none h).congr fun text => by rw [AnySpells]
  | cons branch rest =>
      rw [runAny]
      by_cases hvoid : sequenceIsVoid branch = true
      · rw [if_pos hvoid]
        refine (moves_runAny rest h).congr fun text => ?_
        simp [AnySpells, hvoid]
      · rw [if_neg hvoid]
        refine ((moves_runSequence branch h).union (moves_runAny rest h)).congr fun text => ?_
        simp [AnySpells, hvoid]

end

end

/-! ## Patterns -/

theorem marks_startRow (subject front : Bytes) : (startRow subject).Marks front ↔ front = [] := by
  cases front with
  | nil => simp [Row.Marks, startRow]
  | cons b front => simp [Row.Marks, startRow, List.getElem?_replicate]

/-- The rows decide what the elements stand for. A run of directories that stands alone stands for
everything. -/
theorem accepts_iff {elements : List Element} {subject : Bytes} :
    accepts elements subject = true ↔
      elements = [.leadingPath] ∨ SequenceSpells elements subject := by
  have hrows : (runSequence subject elements (startRow subject)).getLast?.getD false = true ↔
      SequenceSpells elements subject := by
    have hmoves := moves_runSequence subject elements (length_startRow subject)
    have hlast : (runSequence subject elements (startRow subject)).Marks subject ↔
        SequenceSpells elements subject := by
      rw [hmoves.marks_iff subject [] (List.append_nil subject).symm]
      simp [marks_startRow]
    rw [← hlast, Row.Marks, List.getLast?_eq_getElem?, hmoves.length, Nat.add_sub_cancel]
    cases (runSequence subject elements (startRow subject))[subject.length]? <;> simp
  unfold accepts
  split
  · simp
  · next hother => rw [hrows, or_iff_right hother]

/-! ## Patterns with one star -/

/-- The characters by which a pattern is more than a text. -/
def metaChars : List Char := ['*', '?', '[', ']', '\x7b', '\x7d', '\\']

/-- A text without such characters. -/
def Ordinary (text : List Char) : Prop := ∀ c ∈ text, c ∉ metaChars

instance (text : List Char) : Decidable (Ordinary text) :=
  List.decidableBAll (fun c => c ∉ metaChars) text

/-- How a character of such a text is read: a comma outside braces is one, too. -/
def Symbol.ofOrdinary (c : Char) : Symbol := if c = ',' then .comma else .plain c

theorem symbols?_ordinary {text : List Char} (h : Ordinary text) (rest : List Char) :
    symbols? .outside (text ++ rest) =
      (symbols? .outside rest).map (text.map Symbol.ofOrdinary ++ ·) := by
  induction text with
  | nil => simp
  | cons c text ih =>
      rw [Ordinary, List.forall_mem_cons] at h
      have hc := h.1
      simp only [metaChars, List.mem_cons, List.not_mem_nil, or_false, not_or] at hc
      simp only [List.cons_append, symbols?, ih h.2, Option.map_map]
      split <;> simp_all [Symbol.ofOrdinary, Function.comp_def]

theorem assemble?_ordinary (previous : Option Symbol) (frame : Frame) (c : Char)
    (rest : List Symbol) :
    assemble? previous frame [] (Symbol.ofOrdinary c :: rest) =
      assemble? (some (Symbol.ofOrdinary c)) (frame.push (.literal c)) [] rest := by
  by_cases hc : c = ','
  · subst hc
    simp [Symbol.ofOrdinary, assemble?]
  · simp [Symbol.ofOrdinary, hc, assemble?]

theorem assemble?_text (previous : Option Symbol) (frame : Frame) (text : List Char)
    (rest : List Symbol) :
    ∃ last, assemble? previous frame [] (text.map Symbol.ofOrdinary ++ rest) =
      assemble? last ⟨frame.branches, (text.map Element.literal).reverse ++ frame.elements⟩ []
        rest := by
  induction text generalizing previous frame with
  | nil => exact ⟨previous, rfl⟩
  | cons c text ih =>
      obtain ⟨last, hlast⟩ := ih (some (Symbol.ofOrdinary c)) (frame.push (.literal c))
      refine ⟨last, ?_⟩
      rw [List.map_cons, List.cons_append, assemble?_ordinary, hlast]
      simp [Frame.push]

/-- A star that stands alone is one for any bytes. -/
theorem assemble?_star (previous : Option Symbol) (frame : Frame) (text : List Char) :
    assemble? previous frame [] (.star :: text.map Symbol.ofOrdinary) =
      assemble? (some .star) (frame.push .anyBytes) [] (text.map Symbol.ofOrdinary) := by
  cases text with
  | nil => simp [assemble?]
  | cons c text =>
      by_cases hc : c = ','
      · subst hc
        simp [Symbol.ofOrdinary, assemble?]
      · simp [Symbol.ofOrdinary, hc, assemble?]

theorem elements?_star {front back : List Char} (hfront : Ordinary front)
    (hback : Ordinary back) :
    elements? (front ++ '*' :: back) =
      some (front.map Element.literal ++ .anyBytes :: back.map Element.literal) := by
  have hsymbols : symbols? .outside (front ++ '*' :: back) =
      some (front.map Symbol.ofOrdinary ++ .star :: back.map Symbol.ofOrdinary) := by
    have hrest := symbols?_ordinary hback []
    rw [List.append_nil] at hrest
    rw [symbols?_ordinary hfront, symbols?, hrest]
    simp [symbols?]
  obtain ⟨first, hbefore⟩ := assemble?_text none .empty front (.star :: back.map Symbol.ofOrdinary)
  rw [elements?, hsymbols, Option.bind_some, hbefore, assemble?_star]
  obtain ⟨last, hbehind⟩ := assemble?_text (some .star)
    (Frame.push ⟨Frame.empty.branches, (front.map Element.literal).reverse ++ Frame.empty.elements⟩
      .anyBytes) back []
  rw [List.append_nil] at hbehind
  rw [hbehind]
  simp [assemble?, Frame.push, Frame.empty]

theorem sequenceSpells_append {elements more : List Element} {text : Bytes} :
    SequenceSpells (elements ++ more) text ↔
      ∃ front back, text = front ++ back ∧ SequenceSpells elements front ∧
        SequenceSpells more back := by
  induction elements generalizing text with
  | nil => simp [SequenceSpells]
  | cons element rest ih =>
      simp only [List.cons_append, SequenceSpells, ih]
      constructor
      · rintro ⟨first, _, rfl, hfirst, front, back, rfl, hfront, hback⟩
        exact ⟨first ++ front, back, (List.append_assoc _ _ _).symm, ⟨first, front, rfl, hfirst,
          hfront⟩, hback⟩
      · rintro ⟨_, back, rfl, ⟨first, front, rfl, hfirst, hfront⟩, hback⟩
        exact ⟨first, front ++ back, List.append_assoc _ _ _, hfirst, front, back, rfl, hfront,
          hback⟩

theorem sequenceSpells_literals {text : List Char} {bytes : Bytes} :
    SequenceSpells (text.map Element.literal) bytes ↔ bytes = Text.utf8 text := by
  induction text generalizing bytes with
  | nil => simp [SequenceSpells]
  | cons c text ih =>
      simp [SequenceSpells, Element.Spells, ih, Text.utf8_cons]

/-- A pattern with one star accepts the texts that begin with what stands before the star and end
with what stands behind it, where these two do not overlap. -/
theorem test?_star {front back : List Char} (hfront : Ordinary front) (hback : Ordinary back)
    (subject : List Char) :
    test? (front ++ '*' :: back) subject =
      some (decide (front <+: subject ∧ back <:+ subject ∧
        front.length + back.length ≤ subject.length)) := by
  rw [test?, elements?_star hfront hback, Option.map_some, Option.some_inj, Bool.eq_iff_iff,
    decide_eq_true_iff, accepts_iff]
  have hmore : front.map Element.literal ++ Element.anyBytes :: back.map Element.literal ≠
      [.leadingPath] := by
    cases front with
    | nil => simp
    | cons c front => simp
  rw [or_iff_right hmore, sequenceSpells_append]
  simp only [sequenceSpells_literals, SequenceSpells, Element.Spells, true_and]
  -- the parts are cut out of the bytes of the subject; that they are texts is a matter of UTF-8
  constructor
  · rintro ⟨_, _, hsubject, rfl, middle, _, rfl, rfl⟩
    obtain ⟨rest, rfl⟩ := Text.utf8_prefix_iff.mp ⟨_, hsubject.symm⟩
    rw [Text.utf8_append] at hsubject
    have hrest := List.append_cancel_left hsubject
    have hsuffix : back <:+ rest := Text.utf8_suffix_iff.mp ⟨middle, hrest.symm⟩
    refine ⟨List.prefix_append _ _, hsuffix.trans (List.suffix_append _ _), ?_⟩
    rw [List.length_append]
    exact Nat.add_le_add_left hsuffix.length_le _
  · rintro ⟨⟨rest, rfl⟩, hsuffix, hlength⟩
    rw [List.length_append, Nat.add_le_add_iff_left] at hlength
    obtain ⟨middle, rfl⟩ := List.suffix_of_suffix_length_le hsuffix (List.suffix_append _ _) hlength
    refine ⟨_, _, Text.utf8_append _ _, rfl, Text.utf8 middle, _, ?_, rfl⟩
    rw [Text.utf8_append]

end CiPipeline.Glob
