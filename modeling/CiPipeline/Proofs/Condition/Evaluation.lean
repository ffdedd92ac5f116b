import CiPipeline.Proofs.Condition.Comparison
import CiPipeline.Proofs.Glob.Matching

/-!
# Verdicts of comparisons

A comparison can be written with blanks of any kind between its parts and around it. Main statement:
however it is written, its verdict is whether the field equals the literal or differs from it; so
the texts of the constructors are read back as what they were made for, and a pattern with one star
asks how the field begins and ends.
-/

namespace CiPipeline.Condition

/-! ## Texts without operators between expressions -/

/-- Two of a character stand only where there is this character. -/
theorem pair_infix_append {c : Char} {front text : List Char} (hfront : c ∉ front)
    (h : [c, c] <:+: front ++ text) : [c, c] <:+: text := by
  induction front with
  | nil => exact h
  | cons d front ih =>
      rw [List.mem_cons, not_or] at hfront
      rcases List.infix_cons_iff.mp h with hstart | hrest
      · exact absurd (List.cons_prefix_cons.mp hstart).1 hfront.1
      · exact ih hfront.2 hrest

theorem pair_infix_concat {c d : Char} {text : List Char} (hlast : c ≠ d)
    (h : [c, c] <:+: text ++ [d]) : [c, c] <:+: text := by
  rcases List.infix_concat_iff.mp h with hend | hbefore
  · obtain ⟨front, hfront⟩ := hend
    have hsame : c = d := by
      have hconcat : (front ++ [c]) ++ [c] = text ++ [d] := by simpa using hfront
      simpa using (List.append_inj' hconcat rfl).2
    exact absurd hsame hlast
  · exact hbefore

/-- A text that joins no expressions. -/
structure Unjoined (text : List Char) : Prop where
  not_or : ¬ "||".toList <:+: text
  not_and : ¬ "&&".toList <:+: text

instance (text : List Char) : Decidable (Unjoined text) :=
  decidable_of_iff (¬ "||".toList <:+: text ∧ ¬ "&&".toList <:+: text)
    ⟨fun h => ⟨h.1, h.2⟩, fun h => ⟨h.not_or, h.not_and⟩⟩

theorem Unjoined.amid {front text : List Char} {last : Char} (h : Unjoined text)
    (hfront : ∀ c ∈ ['|', '&'], c ∉ front) (hlast : ∀ c ∈ ['|', '&'], c ≠ last) :
    Unjoined (front ++ (text ++ [last])) where
  not_or hjoined := by
    have hrest := pair_infix_append (hfront '|' (by simp)) hjoined
    exact h.not_or (pair_infix_concat (hlast '|' (by simp)) hrest)
  not_and hjoined := by
    have hrest := pair_infix_append (hfront '&' (by simp)) hjoined
    exact h.not_and (pair_infix_concat (hlast '&' (by simp)) hrest)

/-! ## Comparisons as they are written -/

/-- The blanks around a comparison and between its parts. -/
structure Blanks where
  before : List Char
  /-- The one behind the field. -/
  first : Char
  /-- The one behind the relation. -/
  second : Char
  /-- Those in front of the literal. -/
  gap : List Char
  after : List Char
  blank : Text.allBlank (before ++ first :: second :: (gap ++ after)) = true

namespace Blanks

/-- One space behind the field and one behind the relation. -/
def single : Blanks := ⟨[], ' ', ' ', [], [], by decide⟩

/-- What stands in front of the literal. -/
def head (blanks : Blanks) (field : Field) (relation : Relation) : List Char :=
  field.name.toList ++ blanks.first :: (relation.symbol.toList ++ blanks.second :: blanks.gap)

/-- A comparison with a quoted literal. -/
def core (blanks : Blanks) (field : Field) (relation : Relation) (quote : Char)
    (literal : List Char) : List Char :=
  blanks.head field relation ++ quote :: (literal ++ [quote])

/-- The text of a comparison, with the blanks around it. -/
def spell (blanks : Blanks) (field : Field) (relation : Relation) (quote : Char)
    (literal : String) : String :=
  String.ofList (blanks.before ++ (blanks.core field relation quote literal.toList ++
    blanks.after))

variable (blanks : Blanks) (field : Field) (relation : Relation) {quote : Char}
  {literal : List Char}

theorem blank_parts :
    Text.allBlank blanks.before = true ∧ Text.isBlank blanks.first = true ∧
      Text.isBlank blanks.second = true ∧ Text.allBlank blanks.gap = true ∧
      Text.allBlank blanks.after = true := by
  simpa [Text.allBlank] using blanks.blank

/-- A character that is in no field and no relation and is no blank is not in front of the
literal. -/
theorem not_mem_head {c : Char} (hblank : Text.isBlank c = false)
    (hname : c ∉ field.name.toList) (hsymbol : c ∉ relation.symbol.toList) :
    c ∉ blanks.head field relation := by
  obtain ⟨-, hfirst, hsecond, hgap, -⟩ := blanks.blank_parts
  have hne {d : Char} (hd : Text.isBlank d = true) : c ≠ d := by
    rintro rfl
    rw [hblank] at hd
    cases hd
  have hgap : c ∉ blanks.gap := fun hmem => hne (List.all_eq_true.mp hgap c hmem) rfl
  simp [head, hname, hsymbol, hgap, hne hfirst, hne hsecond]

/-- No operator between expressions begins in front of the literal. -/
theorem operator_not_mem_head : ∀ c ∈ ['|', '&'], c ∉ blanks.head field relation := by
  rw [List.forall_mem_cons, List.forall_mem_singleton]
  constructor
  · refine blanks.not_mem_head field relation (by decide) ?_ ?_
    · cases field <;> decide
    · cases relation <;> decide
  · refine blanks.not_mem_head field relation (by decide) ?_ ?_
    · cases field <;> decide
    · cases relation <;> decide

theorem unjoined_core (hquote : IsQuote quote) (h : Unjoined literal) :
    Unjoined (blanks.core field relation quote literal) := by
  have hlast : ∀ c ∈ ['|', '&'], c ≠ quote := by
    rcases hquote with rfl | rfl <;> simp
  have hfront : ∀ c ∈ ['|', '&'], c ∉ blanks.head field relation ++ [quote] := by
    intro c hc hmem
    rcases List.mem_append.mp hmem with hinside | hopen
    · exact blanks.operator_not_mem_head field relation c hc hinside
    · exact hlast c hc (List.mem_singleton.mp hopen)
  simpa [core] using h.amid hfront hlast

/-- A comparison begins with the name of its field, which is neither a blank nor an operator. -/
theorem head?_core (quote : Char) (literal : List Char) :
    ∃ c, (blanks.core field relation quote literal).head? = some c ∧
      Text.isBlank c = false ∧ c ≠ '!' ∧ c ≠ '(' := by
  cases field with
  | branch => exact ⟨'b', rfl, by decide⟩
  | tag => exact ⟨'t', rfl, by decide⟩
  | event => exact ⟨'e', rfl, by decide⟩
  | ci => exact ⟨'c', rfl, by decide⟩

theorem trim_spell (hquote : IsQuote quote) (literal : String) :
    Text.trim (blanks.spell field relation quote literal).toList =
      blanks.core field relation quote literal.toList := by
  obtain ⟨hbefore, -, -, -, hafter⟩ := blanks.blank_parts
  obtain ⟨c, hhead, hblank, -⟩ := blanks.head?_core field relation quote literal.toList
  have hlast : (blanks.core field relation quote literal.toList).getLast? = some quote := by
    rw [core, ← List.cons_append, ← List.append_assoc, List.getLast?_concat]
  have hquoteBlank : Text.isBlank quote = false := by
    rcases hquote with rfl | rfl <;> decide
  rw [spell, String.toList_ofList]
  exact Text.trim_append hbefore hafter ⟨c, hhead, hblank⟩ ⟨quote, hlast, hquoteBlank⟩

/-- What is written as a comparison is read as that comparison. -/
theorem comparison?_spell (hquote : IsQuote quote) {literal : String}
    (h : Unjoined literal.toList) :
    comparison? (blanks.spell field relation quote literal).toList =
      some ⟨field, relation, literal.toList⟩ := by
  obtain ⟨-, hfirst, hsecond, hgap, -⟩ := blanks.blank_parts
  obtain ⟨c, hhead, -, hnegation, hgroup⟩ := blanks.head?_core field relation quote literal.toList
  have hunjoined := blanks.unjoined_core field relation hquote h
  rw [comparison?_eq_some_iff, blanks.trim_spell field relation hquote]
  refine ⟨hunjoined.not_or, hunjoined.not_and, ?_, ?_, blanks.first, blanks.second, blanks.gap,
    quote :: (literal.toList ++ [quote]), [], hfirst, hsecond, hgap, rfl,
    admitted_quoted hquote _, ?_⟩
  · rw [hhead]
    simpa using hnegation
  · rw [hhead]
    simpa using hgroup
  · simp [core, head]

end Blanks

/-! ## Verdicts -/

/-- A comparison that is written in any way is decided by its relation. -/
theorem evaluate_spell (context : RunContext) (blanks : Blanks) (field : Field)
    (relation : Relation) {quote : Char} (hquote : IsQuote quote) {literal : String}
    (h : Unjoined literal.toList) {holds : Bool}
    (hholds : relation.holds? (field.value context).toList literal.toList = some holds) :
    (⟨blanks.spell field relation quote literal⟩ : Condition).evaluate context =
      if holds then .run else .skip := by
  rw [evaluate, blanks.comparison?_spell field relation hquote h]
  simp only [Option.bind_eq_bind, Option.bind_some, hholds]
  cases holds <;> rfl

theorem Relation.holds?_equal (value literal : String) :
    Relation.equal.holds? value.toList literal.toList = some (decide (value = literal)) := by
  rw [Relation.holds?, Option.some_inj, Bool.eq_iff_iff, beq_iff_eq, String.toList_inj,
    decide_eq_true_iff]

theorem Relation.holds?_different (value literal : String) :
    Relation.different.holds? value.toList literal.toList = some (decide (value ≠ literal)) := by
  rw [Relation.holds?, Option.some_inj, Bool.eq_iff_iff, bne_iff_ne, ne_eq, String.toList_inj,
    decide_eq_true_iff]

/-- A text begins with one text and ends with another, and they do not overlap in it. -/
def Encloses (front back text : String) : Prop :=
  front.toList <+: text.toList ∧ back.toList <:+ text.toList ∧
    front.length + back.length ≤ text.length

instance (front back text : String) : Decidable (Encloses front back text) :=
  inferInstanceAs (Decidable (_ ∧ _ ∧ _))

theorem Relation.holds?_star {front back : String} (hfront : Glob.Ordinary front.toList)
    (hback : Glob.Ordinary back.toList) (value : String) :
    Relation.glob.holds? value.toList (front ++ "*" ++ back).toList =
      some (decide (Encloses front back value)) := by
  have hpattern : (front ++ "*" ++ back).toList = front.toList ++ '*' :: back.toList := by
    simp [String.toList_append]
  rw [Relation.holds?, hpattern, Glob.test?_star hfront hback, Option.some_inj, Bool.eq_iff_iff,
    decide_eq_true_iff, decide_eq_true_iff, Encloses, String.length_toList, String.length_toList,
    String.length_toList]

/-- The verdict on a settled question is to run or to skip. -/
theorem evaluate_spell_decide {context : RunContext} {blanks : Blanks} {field : Field}
    {relation : Relation} {quote : Char} (hquote : IsQuote quote) {literal : String}
    (h : Unjoined literal.toList) {Holds : Prop} [Decidable Holds]
    (hholds : relation.holds? (field.value context).toList literal.toList =
      some (decide Holds)) :
    (⟨blanks.spell field relation quote literal⟩ : Condition).evaluate context =
      if Holds then .run else .skip := by
  rw [evaluate_spell context blanks field relation hquote h hholds]
  simp only [decide_eq_true_eq]

/-! ## Constructors -/

/-- A constructor writes its comparison with single blanks. -/
theorem text_event (kind : String) :
    (Tree.event kind).text = Blanks.single.spell .event .equal '\'' kind := by
  rw [← String.toList_inj, Tree.text]
  simp [Blanks.spell, Blanks.core, Blanks.head, Blanks.single, Field.name, Relation.symbol]

theorem fieldText_eq (field : Field) (pattern : String) :
    fieldText field pattern = Blanks.single.spell field
      (if pattern.toList.contains '*' then .glob else .equal) '\'' pattern := by
  rw [← String.toList_inj, fieldText]
  simp [Blanks.spell, Blanks.core, Blanks.head, Blanks.single]

theorem evaluate_fieldText {context : RunContext} {field : Field} {pattern : String}
    (h : Unjoined pattern.toList) {Holds : Prop} [Decidable Holds]
    (hholds : (if pattern.toList.contains '*' then Relation.glob else .equal).holds?
      (field.value context).toList pattern.toList = some (decide Holds)) :
    (⟨fieldText field pattern⟩ : Condition).evaluate context =
      if Holds then .run else .skip := by
  rw [fieldText_eq]
  exact evaluate_spell_decide (.inl rfl) h hholds

/-- A pattern without a star is compared for equality. -/
theorem evaluate_fieldText_plain (context : RunContext) (field : Field) {pattern : String}
    (h : Unjoined pattern.toList) (hstar : '*' ∉ pattern.toList) :
    (⟨fieldText field pattern⟩ : Condition).evaluate context =
      if field.value context = pattern then .run else .skip := by
  apply evaluate_fieldText h
  rw [if_neg (by simpa using hstar)]
  exact Relation.holds?_equal _ _

theorem evaluate_fieldText_star (context : RunContext) (field : Field) {front back : String}
    (h : Unjoined (front ++ "*" ++ back).toList)
    (hfront : Glob.Ordinary front.toList) (hback : Glob.Ordinary back.toList) :
    (⟨fieldText field (front ++ "*" ++ back)⟩ : Condition).evaluate context =
      if Encloses front back (field.value context) then .run else .skip := by
  apply evaluate_fieldText h
  rw [if_pos (by simp [String.toList_append])]
  exact Relation.holds?_star hfront hback _

end CiPipeline.Condition
