import CiPipeline.Text.Blank
import Mathlib.Data.List.Basic
import Mathlib.Data.List.Infix

/-!
# Cutting and trimming texts

Each way to cut a text is undone by joining the parts, and parts that were joined are cut apart
again in the same places.
-/

namespace CiPipeline.Text

/-- A text is cut at the first place of a separator in one way only. -/
theorem cut_inj {separator : Char} {first other rest more : List Char}
    (hfirst : separator ∉ first) (hother : separator ∉ other)
    (h : first ++ separator :: rest = other ++ separator :: more) :
    first = other ∧ rest = more := by
  induction first generalizing other with
  | nil =>
      cases other with
      | nil => exact ⟨rfl, (List.cons.inj h).2⟩
      | cons c other =>
          obtain ⟨rfl, -⟩ := List.cons.inj h
          exact (hother List.mem_cons_self).elim
  | cons c first ih =>
      cases other with
      | nil =>
          obtain ⟨rfl, -⟩ := List.cons.inj h
          exact (hfirst List.mem_cons_self).elim
      | cons d other =>
          obtain ⟨rfl, hrest⟩ := List.cons.inj h
          obtain ⟨rfl, rfl⟩ := ih (fun hmem => hfirst (List.mem_cons_of_mem c hmem))
            (fun hmem => hother (List.mem_cons_of_mem c hmem)) hrest
          exact ⟨rfl, rfl⟩

theorem cutAtBlank_append {word : List Char} (hword : word.all (fun c => !isBlank c) = true)
    {blank : Char} (hblank : isBlank blank = true) (rest : List Char) :
    cutAtBlank (word ++ blank :: rest) = some (word, rest) := by
  induction word with
  | nil => simp [cutAtBlank, hblank]
  | cons c word ih =>
      obtain ⟨hc, hword⟩ : isBlank c = false ∧ word.all (fun c => !isBlank c) = true := by
        simpa using hword
      simp [cutAtBlank, hc, ih hword]

theorem contains_iff {part text : List Char} : contains part text = true ↔ part <:+: text := by
  induction text with
  | nil => simp [contains]
  | cons c text ih =>
      rw [contains, Bool.or_eq_true, List.isPrefixOf_iff_prefix, ih, List.infix_cons_iff]

theorem unquote?_eq_some_iff {quote : Char} {text inner : List Char} :
    unquote? quote text = some inner ↔ text = quote :: (inner ++ [quote]) := by
  cases text with
  | nil => simp [unquote?]
  | cons c rest =>
      rw [unquote?, Option.ite_none_right_eq_some, List.getLast?_eq_some_iff]
      constructor
      · intro h
        obtain ⟨⟨rfl, ys, rfl⟩, hinner⟩ := h
        rw [List.dropLast_concat, Option.some.injEq] at hinner
        rw [hinner]
      · intro h
        obtain ⟨rfl, rfl⟩ := List.cons.inj h
        exact ⟨⟨rfl, inner, rfl⟩, by rw [List.dropLast_concat]⟩

/-! ## Trimming -/

theorem exists_trimLeft (text : List Char) :
    ∃ before, allBlank before = true ∧ text = before ++ trimLeft text :=
  ⟨text.takeWhile isBlank, List.all_takeWhile, List.takeWhile_append_dropWhile.symm⟩

/-- A text stands between blanks as it is trimmed. -/
theorem exists_trim (text : List Char) :
    ∃ before after, allBlank before = true ∧ allBlank after = true ∧
      text = before ++ (trim text ++ after) := by
  obtain ⟨before, hbefore, htext⟩ := exists_trimLeft text
  obtain ⟨after, hafter, hrest⟩ := exists_trimLeft (trimLeft text).reverse
  refine ⟨before, after.reverse, hbefore, by rwa [allBlank, List.all_reverse], ?_⟩
  rw [trim, ← List.reverse_append, ← hrest, List.reverse_reverse]
  exact htext

theorem trimLeft_append {before rest : List Char} (hbefore : allBlank before = true)
    (hfirst : ∃ c ∈ rest.head?, isBlank c = false) : trimLeft (before ++ rest) = rest := by
  induction before with
  | nil =>
      obtain ⟨c, hc, hblank⟩ := hfirst
      obtain ⟨more, rfl⟩ := List.head?_eq_some_iff.mp hc
      exact List.dropWhile_cons_of_neg (by rw [hblank]; simp)
  | cons c before ih =>
      obtain ⟨hc, hbefore⟩ := Bool.and_eq_true_iff.mp hbefore
      rw [List.cons_append, trimLeft, List.dropWhile_cons_of_pos hc]
      exact ih hbefore

/-- What begins and ends with no blank is what trimming leaves of it among blanks. -/
theorem trim_append {before core after : List Char} (hbefore : allBlank before = true)
    (hafter : allBlank after = true) (hfirst : ∃ c ∈ core.head?, isBlank c = false)
    (hlast : ∃ c ∈ core.getLast?, isBlank c = false) : trim (before ++ (core ++ after)) = core := by
  have hhead : ∃ c ∈ (core ++ after).head?, isBlank c = false := by
    obtain ⟨c, hc, hblank⟩ := hfirst
    exact ⟨c, List.mem_head?_append_of_mem_head? hc, hblank⟩
  have hreverse : allBlank after.reverse = true := by rwa [allBlank, List.all_reverse]
  rw [← List.head?_reverse] at hlast
  rw [trim, trimLeft_append hbefore hhead, List.reverse_append, trimLeft_append hreverse hlast,
    List.reverse_reverse]

end CiPipeline.Text
