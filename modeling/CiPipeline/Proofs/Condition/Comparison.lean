import CiPipeline.Condition
import CiPipeline.Proofs.Text.Blank

/-!
# What counts as a comparison

An expression is evaluated only if it is nothing but one comparison: a field, an operator and a
literal, cut apart by single blanks. Main statement: so it is exactly, but for a text between quotes
that holds its own quote, which is taken for one literal.
-/

namespace CiPipeline.Condition

/-- Among values whose spellings are told apart, a text finds the one that it spells. -/
theorem find?_spelling_eq_some_iff {spelling : α → String} {values : List α} {value : α}
    (hvalue : values.find? (spelling · == spelling value) = some value) {text : String} :
    values.find? (spelling · == text) = some value ↔ text = spelling value := by
  constructor
  · intro h
    have hspelling := List.find?_some h
    exact (beq_iff_eq.mp hspelling).symm
  · intro h
    rw [h, hvalue]

theorem Field.named?_eq_some_iff {text : String} {field : Field} :
    Field.named? text = some field ↔ text = field.name :=
  find?_spelling_eq_some_iff (Field.named?_name field)

theorem Relation.named?_eq_some_iff {text : String} {relation : Relation} :
    Relation.named? text = some relation ↔ text = relation.symbol :=
  find?_spelling_eq_some_iff (Relation.named?_symbol relation)

theorem Field.not_blank_name (field : Field) :
    field.name.toList.all (fun c => !Text.isBlank c) = true := by
  cases field <;> decide

theorem Relation.not_blank_symbol (relation : Relation) :
    relation.symbol.toList.all (fun c => !Text.isBlank c) = true := by
  cases relation <;> decide

/-! ## Literals -/

def IsQuote (c : Char) : Prop := c = '\'' ∨ c = '"'

/-- How a literal is written, and what it stands for: a text in quotes of a kind that it does not
hold, or a bare word that is compared with `ci`. -/
inductive Literal (field : Field) : List Char → List Char → Prop where
  | quoted {quote : Char} {inner : List Char} (hquote : IsQuote quote) (hinner : quote ∉ inner) :
      Literal field (quote :: (inner ++ [quote])) inner
  | bare {word : List Char} (hfield : field = .ci)
      (hword : word = "true".toList ∨ word = "false".toList) : Literal field word word

variable {field : Field} {written literal : List Char}

/-- A literal that is no bare word is written with a quote that it does not hold. -/
theorem Literal.exists_quote (h : Literal field written literal) (hfield : field ≠ .ci) :
    ∃ quote ∈ written, IsQuote quote ∧ quote ∉ literal := by
  cases h with
  | quoted hquote hinner => exact ⟨_, List.mem_cons_self, hquote, hinner⟩
  | bare hci => exact absurd hci hfield

/-- A text in quotes of a kind that it holds. -/
inductive Requoted : List Char → List Char → Prop where
  | mk {quote : Char} {inner : List Char} (hquote : IsQuote quote) (hinner : quote ∈ inner) :
      Requoted (quote :: (inner ++ [quote])) inner

/-- What is taken for a literal. -/
def Admitted (field : Field) (written literal : List Char) : Prop :=
  Literal field written literal ∨ Requoted written literal

theorem admitted_quoted {quote : Char} (hquote : IsQuote quote) (inner : List Char) :
    Admitted field (quote :: (inner ++ [quote])) inner := by
  by_cases hinner : quote ∈ inner
  · exact .inr (.mk hquote hinner)
  · exact .inl (.quoted hquote hinner)

theorem literal?_quoted {quote : Char} (hquote : IsQuote quote) (inner : List Char) :
    literal? field (quote :: (inner ++ [quote])) = some inner := by
  have hopen := Text.unquote?_eq_some_iff.mpr (rfl : quote :: (inner ++ [quote]) = _)
  rcases hquote with rfl | rfl
  · simp only [literal?, hopen]
  · have hsingle : Text.unquote? '\'' ('"' :: (inner ++ ['"'])) = none := rfl
    simp only [literal?, hsingle, hopen]

theorem literal?_eq_some_iff :
    literal? field written = some literal ↔ Admitted field written literal := by
  constructor
  · intro h
    unfold literal? at h
    split at h
    · next inner _ hsingle =>
        cases h
        rw [Text.unquote?_eq_some_iff.mp hsingle]
        exact admitted_quoted (.inl rfl) _
    · next inner _ hdouble =>
        cases h
        rw [Text.unquote?_eq_some_iff.mp hdouble]
        exact admitted_quoted (.inr rfl) _
    · split at h
      · next hbare =>
          cases h
          exact .inl (.bare hbare.1 hbare.2)
      · cases h
  · intro h
    rcases h with h | h
    · cases h with
      | quoted hquote => exact literal?_quoted hquote literal
      | bare hfield hword =>
          subst hfield
          rcases hword with rfl | rfl
          · rfl
          · rfl
    · cases h with
      | mk hquote => exact literal?_quoted hquote literal

/-- What is admitted begins and ends with a quote or a letter. -/
theorem Admitted.not_blank (h : Admitted field written literal) :
    (∃ c ∈ written.head?, Text.isBlank c = false) ∧
      ∃ c ∈ written.getLast?, Text.isBlank c = false := by
  have hquoted {quote : Char} (hquote : IsQuote quote) (inner : List Char) :
      (∃ c ∈ (quote :: (inner ++ [quote])).head?, Text.isBlank c = false) ∧
        ∃ c ∈ (quote :: (inner ++ [quote])).getLast?, Text.isBlank c = false := by
    have hblank : Text.isBlank quote = false := by
      rcases hquote with rfl | rfl <;> decide
    refine ⟨⟨quote, rfl, hblank⟩, quote, ?_, hblank⟩
    rw [← List.cons_append, List.getLast?_concat]
    rfl
  rcases h with h | h
  · cases h with
    | quoted hquote => exact hquoted hquote literal
    | bare _ hword =>
        rcases hword with rfl | rfl
        · exact ⟨⟨'t', rfl, by decide⟩, 'e', rfl, by decide⟩
        · exact ⟨⟨'f', rfl, by decide⟩, 'e', rfl, by decide⟩
  · cases h with
    | mk hquote => exact hquoted hquote literal

/-! ## Expressions -/

/-- An expression that is a single comparison: no other one is joined to it, nothing stands in front
of it, and blanks set off its parts. A way of reading literals is given. -/
structure Spells (Reads : Field → List Char → List Char → Prop) (expression : List Char)
    (comparison : Comparison) : Prop where
  not_or : ¬ "||".toList <:+: expression
  not_and : ¬ "&&".toList <:+: expression
  not_negated : expression.head? ≠ some '!'
  not_grouped : expression.head? ≠ some '('
  parts : ∃ first second before written after,
    Text.isBlank first = true ∧ Text.isBlank second = true ∧
    Text.allBlank before = true ∧ Text.allBlank after = true ∧
    Reads comparison.field written comparison.literal ∧
    expression = comparison.field.name.toList ++ first ::
      (comparison.relation.symbol.toList ++ second :: (before ++ (written ++ after)))

theorem Spells.mono {Reads Takes : Field → List Char → List Char → Prop}
    (hreads : ∀ field written literal, Reads field written literal → Takes field written literal)
    {expression : List Char} {comparison : Comparison} (h : Spells Reads expression comparison) :
    Spells Takes expression comparison := by
  obtain ⟨first, second, before, written, after, hfirst, hsecond, hbefore, hafter, hliteral,
    hparts⟩ := h.parts
  exact ⟨h.not_or, h.not_and, h.not_negated, h.not_grouped, first, second, before, written, after,
    hfirst, hsecond, hbefore, hafter, hreads _ _ _ hliteral, hparts⟩

theorem ofList_eq_iff {text : List Char} {name : String} :
    String.ofList text = name ↔ text = name.toList := by
  constructor
  · intro h
    rw [← h, String.toList_ofList]
  · intro h
    rw [h, String.ofList_toList]

theorem not_compound_iff {text : List Char} :
    ¬ (Text.contains "||".toList text || Text.contains "&&".toList text
        || text.head? == some '!' || text.head? == some '(') = true ↔
      ¬ "||".toList <:+: text ∧ ¬ "&&".toList <:+: text ∧
        text.head? ≠ some '!' ∧ text.head? ≠ some '(' := by
  simp only [Bool.or_eq_true, not_or, and_assoc, Text.contains_iff, beq_iff_eq, ne_eq]

theorem comparison?_eq_some_iff {text : List Char} {comparison : Comparison} :
    comparison? text = some comparison ↔ Spells Admitted (Text.trim text) comparison := by
  constructor
  · intro h
    rw [comparison?, Option.ite_none_left_eq_some, not_compound_iff] at h
    obtain ⟨⟨not_or, not_and, not_negated, not_grouped⟩, h⟩ := h
    obtain ⟨⟨name, rest⟩, hname, h⟩ := Option.bind_eq_some_iff.mp h
    obtain ⟨⟨symbol, last⟩, hsymbol, h⟩ := Option.bind_eq_some_iff.mp h
    obtain ⟨field, hfield, h⟩ := Option.bind_eq_some_iff.mp h
    obtain ⟨relation, hrelation, h⟩ := Option.bind_eq_some_iff.mp h
    obtain ⟨literal, hliteral, h⟩ := Option.bind_eq_some_iff.mp h
    obtain rfl := Option.some.inj h
    obtain ⟨-, first, hfirst, htext⟩ := Text.cutAtBlank_eq_some hname
    obtain ⟨-, second, hsecond, hrest⟩ := Text.cutAtBlank_eq_some hsymbol
    obtain ⟨before, after, hbefore, hafter, hlast⟩ := Text.exists_trim last
    obtain rfl := ofList_eq_iff.mp (Field.named?_eq_some_iff.mp hfield)
    obtain rfl := ofList_eq_iff.mp (Relation.named?_eq_some_iff.mp hrelation)
    refine ⟨not_or, not_and, not_negated, not_grouped, first, second, before, Text.trim last,
      after, hfirst, hsecond, hbefore, hafter, literal?_eq_some_iff.mp hliteral, ?_⟩
    rw [htext, hrest, ← hlast]
  · intro h
    obtain ⟨first, second, before, written, after, hfirst, hsecond, hbefore, hafter, hreads,
      htext⟩ := h.parts
    obtain ⟨hhead, hend⟩ := hreads.not_blank
    rw [comparison?, Option.ite_none_left_eq_some, not_compound_iff]
    refine ⟨⟨h.not_or, h.not_and, h.not_negated, h.not_grouped⟩, ?_⟩
    have hname := Text.cutAtBlank_append (Field.not_blank_name comparison.field) hfirst
      (comparison.relation.symbol.toList ++ second :: (before ++ (written ++ after)))
    have hsymbol := Text.cutAtBlank_append (Relation.not_blank_symbol comparison.relation) hsecond
      (before ++ (written ++ after))
    have hlast := Text.trim_append hbefore hafter hhead hend
    simp only [htext, hname, hsymbol, hlast, Option.bind_eq_bind, Option.bind_some,
      String.ofList_toList, Field.named?_name, Relation.named?_symbol,
      literal?_eq_some_iff.mpr hreads]
    rfl

/-! ## Verdicts -/

theorem Relation.isSome_holds?_iff {relation : Relation} {value literal : List Char} :
    (relation.holds? value literal).isSome ↔
      (relation = .glob → (Glob.elements? literal).isSome) := by
  cases relation with
  | equal => simp [Relation.holds?]
  | different => simp [Relation.holds?]
  | glob => simp [Relation.holds?, Glob.test?]

/-- A condition has a verdict exactly if its text, trimmed, is a single comparison whose literal is
a valid pattern wherever it is matched against. -/
theorem evaluate_ne_unknown_iff (condition : Condition) (context : RunContext) :
    condition.evaluate context ≠ .unknown ↔
      ∃ comparison, Spells Admitted (Text.trim condition.text.toList) comparison ∧
        (comparison.relation = .glob → (Glob.elements? comparison.literal).isSome) := by
  have hverdict : condition.evaluate context ≠ .unknown ↔
      ((comparison? condition.text.toList).bind fun comparison =>
        comparison.relation.holds? (comparison.field.value context).toList
          comparison.literal).isSome := by
    simp only [evaluate, Option.bind_eq_bind]
    split
    all_goals simp [*]
  rw [hverdict, Option.isSome_iff_exists]
  constructor
  · intro h
    obtain ⟨holds, h⟩ := h
    obtain ⟨comparison, hcomparison, hholds⟩ := Option.bind_eq_some_iff.mp h
    refine ⟨comparison, comparison?_eq_some_iff.mp hcomparison, ?_⟩
    exact Relation.isSome_holds?_iff.mp (Option.isSome_of_eq_some hholds)
  · intro h
    obtain ⟨comparison, hspells, hglob⟩ := h
    obtain ⟨holds, hholds⟩ := Option.isSome_iff_exists.mp (Relation.isSome_holds?_iff.mpr hglob)
    exact ⟨holds, Option.bind_eq_some_iff.mpr
      ⟨comparison, comparison?_eq_some_iff.mpr hspells, hholds⟩⟩

/-- Two comparisons with a word between them are taken for one, whose literal runs from the first
quote to the last. -/
theorem skip_of_joined_comparisons :
    (⟨"branch == 'main' or tag == 'v1'"⟩ : Condition).evaluate ⟨"main", "", "", false⟩ = .skip ∧
      ¬ ∃ comparison,
        Spells Literal (Text.trim "branch == 'main' or tag == 'v1'".toList) comparison := by
  refine ⟨by decide +kernel, ?_⟩
  rintro ⟨comparison, hspells⟩
  have hread := comparison?_eq_some_iff.mpr
    (hspells.mono fun _ _ _ hliteral => (Or.inl hliteral : Admitted _ _ _))
  have hjoined : comparison? "branch == 'main' or tag == 'v1'".toList =
      some ⟨.branch, .equal, "main' or tag == 'v1".toList⟩ := rfl
  obtain rfl := Option.some.inj (hjoined.symm.trans hread)
  obtain ⟨first, second, before, written, after, -, -, -, -, hliteral, hparts⟩ := hspells.parts
  obtain ⟨quote, hwritten, hquote, hfree⟩ := hliteral.exists_quote (by decide)
  have hmem : quote ∈ Text.trim "branch == 'main' or tag == 'v1'".toList := by
    rw [hparts]
    simp [hwritten]
  rcases hquote with rfl | rfl
  · exact hfree (by decide)
  · exact absurd hmem (by decide)

end CiPipeline.Condition
