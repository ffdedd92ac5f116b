import CiPipeline.Condition
import CiPipeline.Proofs.Text.Blank

/-!
# Texts of condition trees are read in one way

No text of a tree is the beginning of the text of another one, however the texts go on. So a text
that stands between parentheses ends where its tree ends, whatever stands in its literals, and the
operator behind it is the one that was built. Main statement: a text has one tree.
-/

namespace CiPipeline

namespace Condition

/-! ## Comparisons with quoted literals -/

theorem Field.not_mem_name (field : Field) : ' ' ∉ field.name.toList := by
  cases field <;> decide

theorem Field.name_inj {field other : Field} (h : field.name = other.name) : field = other := by
  have hnamed := congrArg named? h
  rw [named?_name, named?_name] at hnamed
  exact Option.some.inj hnamed

theorem Relation.not_mem_symbol (relation : Relation) : ' ' ∉ relation.symbol.toList := by
  cases relation <;> decide

theorem Relation.symbol_inj {relation other : Relation} (h : relation.symbol = other.symbol) :
    relation = other := by
  have hnamed := congrArg named? h
  rw [named?_symbol, named?_symbol] at hnamed
  exact Option.some.inj hnamed

/-- A comparison whose literal stands in single quotes. -/
def Comparison.spell (comparison : Comparison) : List Char :=
  comparison.field.name.toList ++ ' ' :: (comparison.relation.symbol.toList ++
    ' ' :: '\'' :: (comparison.literal ++ ['\'']))

theorem Comparison.head?_spell (comparison : Comparison) :
    comparison.spell.head? = comparison.field.name.toList.head? := by
  cases hfield : comparison.field <;> simp [spell, hfield, Field.name]

theorem Comparison.spell_append_inj {comparison other : Comparison} {rest more : List Char}
    (hliteral : '\'' ∉ comparison.literal) (hother : '\'' ∉ other.literal)
    (h : comparison.spell ++ rest = other.spell ++ more) : comparison = other ∧ rest = more := by
  simp only [spell, List.append_assoc, List.cons_append, List.nil_append] at h
  obtain ⟨hname, h⟩ := Text.cut_inj (Field.not_mem_name _) (Field.not_mem_name _) h
  obtain ⟨hsymbol, h⟩ := Text.cut_inj (Relation.not_mem_symbol _) (Relation.not_mem_symbol _) h
  obtain ⟨hliterals, hrest⟩ := Text.cut_inj hliteral hother (List.cons.inj h).2
  have hfield := Field.name_inj (String.toList_inj.mp hname)
  have hrelation := Relation.symbol_inj (String.toList_inj.mp hsymbol)
  exact ⟨by cases comparison; cases other; simp_all, hrest⟩

namespace Tree

/-- The trees of the constructors, with no single quote in a pattern or an event. -/
def Canonical : Tree → Prop
  | .raw _ => False
  | .branch pattern => '\'' ∉ pattern.toList
  | .tag pattern => '\'' ∉ pattern.toList
  | .hasTag => True
  | .event kind => '\'' ∉ kind.toList
  | .inCi => True
  | .negate operand => operand.Canonical
  | .or left right => left.Canonical ∧ right.Canonical
  | .and left right => left.Canonical ∧ right.Canonical

instance decidableCanonical : (tree : Tree) → Decidable tree.Canonical
  | .raw _ => inferInstanceAs (Decidable False)
  | .branch pattern => inferInstanceAs (Decidable ('\'' ∉ pattern.toList))
  | .tag pattern => inferInstanceAs (Decidable ('\'' ∉ pattern.toList))
  | .hasTag => inferInstanceAs (Decidable True)
  | .event kind => inferInstanceAs (Decidable ('\'' ∉ kind.toList))
  | .inCi => inferInstanceAs (Decidable True)
  | .negate operand => decidableCanonical operand
  | .or left right =>
      have := decidableCanonical left
      have := decidableCanonical right
      inferInstanceAs (Decidable (left.Canonical ∧ right.Canonical))
  | .and left right =>
      have := decidableCanonical left
      have := decidableCanonical right
      inferInstanceAs (Decidable (left.Canonical ∧ right.Canonical))

def patternRelation (pattern : String) : Relation :=
  if pattern.toList.contains '*' then .glob else .equal

/-- The comparison of a tree whose text is a single comparison with a quoted literal. -/
def quoted? : Tree → Option Comparison
  | .branch pattern => some ⟨.branch, patternRelation pattern, pattern.toList⟩
  | .tag pattern => some ⟨.tag, patternRelation pattern, pattern.toList⟩
  | .hasTag => some ⟨.tag, .different, []⟩
  | .event kind => some ⟨.event, .equal, kind.toList⟩
  | _ => none

theorem patternRelation_ne_different (pattern : String) : patternRelation pattern ≠ .different := by
  unfold patternRelation
  split <;> simp

variable {tree other : Tree} {comparison : Comparison}

theorem toList_text_of_quoted? (h : tree.quoted? = some comparison) :
    tree.text.toList = comparison.spell := by
  cases tree with
  | branch pattern => cases h; simp [text, fieldText, patternRelation, Comparison.spell]
  | tag pattern => cases h; simp [text, fieldText, patternRelation, Comparison.spell]
  | hasTag => cases h; rfl
  | event kind => cases h; simp [text, Comparison.spell, Field.name, Relation.symbol]
  | _ => cases h

theorem eq_of_quoted? (h : tree.quoted? = some comparison)
    (hother : other.quoted? = some comparison) : tree = other := by
  have hpattern (pattern : String) : Relation.different ≠ patternRelation pattern :=
    (patternRelation_ne_different pattern).symm
  cases tree <;> cases h <;> cases other <;>
    simp_all [quoted?, patternRelation_ne_different, String.toList_inj]

theorem not_mem_literal (h : tree.Canonical) (hquoted : tree.quoted? = some comparison) :
    '\'' ∉ comparison.literal := by
  cases tree with
  | branch pattern => cases hquoted; exact h
  | tag pattern => cases hquoted; exact h
  | hasTag => cases hquoted; exact List.not_mem_nil
  | event kind => cases hquoted; exact h
  | _ => cases hquoted

/-! ## Trees -/

/-- The character with which the text of a tree begins. -/
def opening? : Tree → Option Char
  | .raw text => text.toList.head?
  | .branch _ => some 'b'
  | .tag _ => some 't'
  | .hasTag => some 't'
  | .event _ => some 'e'
  | .inCi => some 'c'
  | .negate _ => some '!'
  | .or _ _ => some '('
  | .and _ _ => some '('

@[simp] theorem toList_text_negate (operand : Tree) :
    (negate operand).text.toList = '!' :: '(' :: (operand.text.toList ++ [')']) := by
  simp [text]

@[simp] theorem toList_text_or (left right : Tree) :
    (or left right).text.toList =
      '(' :: (left.text.toList ++ ')' :: ' ' :: '|' :: '|' :: ' ' :: '(' ::
        (right.text.toList ++ [')'])) := by
  simp [text]

@[simp] theorem toList_text_and (left right : Tree) :
    (and left right).text.toList =
      '(' :: (left.text.toList ++ ')' :: ' ' :: '&' :: '&' :: ' ' :: '(' ::
        (right.text.toList ++ [')'])) := by
  simp [text]

theorem opening?_of_quoted? (h : tree.quoted? = some comparison) :
    tree.opening? = comparison.field.name.toList.head? := by
  cases tree with
  | branch | tag | hasTag | event => cases h; simp [opening?, Field.name]
  | _ => cases h

theorem head?_text (tree : Tree) : tree.text.toList.head? = tree.opening? := by
  cases hquoted : tree.quoted? with
  | some comparison =>
      rw [toList_text_of_quoted? hquoted, opening?_of_quoted? hquoted, Comparison.head?_spell]
  | none =>
      cases tree with
      | negate => rw [toList_text_negate]; rfl
      | or => rw [toList_text_or]; rfl
      | and => rw [toList_text_and]; rfl
      | raw | inCi => rfl
      | _ => cases hquoted

theorem exists_opening (h : tree.Canonical) : ∃ c, tree.opening? = some c := by
  cases tree with
  | raw => exact h.elim
  | _ => exact ⟨_, rfl⟩

theorem opening?_eq (htree : tree.Canonical) (hother : other.Canonical) {rest more : List Char}
    (h : tree.text.toList ++ rest = other.text.toList ++ more) :
    tree.opening? = other.opening? := by
  obtain ⟨c, hc⟩ := exists_opening htree
  obtain ⟨d, hd⟩ := exists_opening hother
  have hhead := congrArg List.head? h
  rw [List.head?_append, List.head?_append, head?_text, head?_text, hc, hd] at hhead
  rw [hc, hd]
  exact hhead

/-- A comparison with a quoted literal begins unlike every other tree. -/
theorem exists_quoted? (hquoted : tree.quoted? = some comparison) (hother : other.Canonical)
    (hopening : tree.opening? = other.opening?) : ∃ written, other.quoted? = some written := by
  cases other with
  | raw => exact hother.elim
  | branch | tag | hasTag | event => exact ⟨_, rfl⟩
  | inCi | negate | or | and =>
      cases tree with
      | branch | tag | hasTag | event => cases hopening
      | _ => cases hquoted

theorem quoted_append_inj {rest more : List Char} (hquoted : tree.quoted? = some comparison)
    (htree : tree.Canonical) (hother : other.Canonical)
    (h : tree.text.toList ++ rest = other.text.toList ++ more) : tree = other ∧ rest = more := by
  obtain ⟨written, hwritten⟩ := exists_quoted? hquoted hother (opening?_eq htree hother h)
  rw [toList_text_of_quoted? hquoted, toList_text_of_quoted? hwritten] at h
  obtain ⟨rfl, hrest⟩ := Comparison.spell_append_inj (not_mem_literal htree hquoted)
    (not_mem_literal hother hwritten) h
  exact ⟨eq_of_quoted? hquoted hwritten, hrest⟩

/-- The text of a tree tells where it ends: what begins with the texts of two trees begins with one
text, and they are one tree. -/
theorem text_append_inj (htree : tree.Canonical) (hother : other.Canonical) {rest more : List Char}
    (h : tree.text.toList ++ rest = other.text.toList ++ more) : tree = other ∧ rest = more := by
  induction tree generalizing other rest more with
  | raw => exact htree.elim
  | branch | tag | hasTag | event => exact quoted_append_inj rfl htree hother h
  | inCi =>
      have hopening := opening?_eq htree hother h
      cases other with
      | inCi => exact ⟨rfl, List.append_cancel_left h⟩
      | raw => exact hother.elim
      | _ => cases hopening
  | negate operand ih =>
      have hopening := opening?_eq htree hother h
      cases other with
      | negate inner =>
          have hinner : inner.Canonical := hother
          obtain ⟨rfl, hrest⟩ := ih htree hinner (by simpa using h)
          exact ⟨rfl, (List.cons.inj hrest).2⟩
      | raw => exact hother.elim
      | _ => cases hopening
  | or left right ihleft ihright =>
      have hopening := opening?_eq htree hother h
      cases other with
      | or =>
          obtain ⟨rfl, hright⟩ := ihleft htree.1 hother.1 (by simpa using h)
          obtain ⟨rfl, hrest⟩ := ihright htree.2 hother.2 (by simpa using hright)
          exact ⟨rfl, (List.cons.inj hrest).2⟩
      | and =>
          -- The operator stands right behind the left operand, which ends in the same place.
          obtain ⟨-, hright⟩ := ihleft htree.1 hother.1 (by simpa using h)
          simp at hright
      | raw => exact hother.elim
      | _ => cases hopening
  | and left right ihleft ihright =>
      have hopening := opening?_eq htree hother h
      cases other with
      | or =>
          obtain ⟨-, hright⟩ := ihleft htree.1 hother.1 (by simpa using h)
          simp at hright
      | and =>
          obtain ⟨rfl, hright⟩ := ihleft htree.1 hother.1 (by simpa using h)
          obtain ⟨rfl, hrest⟩ := ihright htree.2 hother.2 (by simpa using hright)
          exact ⟨rfl, (List.cons.inj hrest).2⟩
      | raw => exact hother.elim
      | _ => cases hopening

end Tree

/-- Conditions that were built from other trees of constructors, or with other arguments, have
another text. -/
theorem tree_eq_of_text_eq {tree other : Tree} (htree : tree.Canonical) (hother : other.Canonical)
    (h : (ofTree tree).text = (ofTree other).text) : tree = other := by
  have htext : tree.text.toList ++ [] = other.text.toList ++ [] :=
    congrArg (·.toList ++ []) h
  exact (Tree.text_append_inj htree hother htext).1

/-- Three conditions in a row, one of which has an operator in its literal: the text tells how they
were grouped. -/
theorem tree_of_grouped_text :
    let tree : Tree := .or (.branch "a) || (b") (.or (.negate (.tag "v*")) .inCi)
    let other : Tree := [.branch "a) || (b", .negate (.tag "v*")].foldr .or .inCi
    let regrouped : Tree := .or (.or (.branch "a) || (b") (.negate (.tag "v*"))) .inCi
    tree.Canonical ∧ other.Canonical ∧ (ofTree tree).text = (ofTree other).text ∧ tree = other ∧
      regrouped.Canonical ∧ (ofTree tree).text ≠ (ofTree regrouped).text := by
  intro tree other regrouped
  have htree : tree.Canonical := by decide
  have hother : other.Canonical := by decide
  have hregrouped : regrouped.Canonical := by decide
  have htext : (ofTree tree).text = (ofTree other).text := rfl
  refine ⟨htree, hother, htext, tree_eq_of_text_eq htree hother htext, hregrouped, fun h => ?_⟩
  exact absurd (tree_eq_of_text_eq htree hregrouped h) (by decide)

end Condition

end CiPipeline
