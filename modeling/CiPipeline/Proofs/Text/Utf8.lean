import CiPipeline.Text.Utf8
import Mathlib.Data.List.Basic
import Mathlib.Data.List.Infix

/-!
# Texts and their bytes

No character is spelled by the beginning or the end of another one's bytes, so a text is told by its
bytes, and one text begins or ends with another exactly if its bytes do.
-/

namespace CiPipeline.Text

@[simp] theorem utf8_nil : utf8 [] = [] := rfl

theorem utf8_cons (c : Char) (text : List Char) :
    utf8 (c :: text) = String.utf8EncodeChar c ++ utf8 text :=
  List.flatMap_cons

/-- The first character of a text can be read off the bytes. -/
theorem encodeChar_append_inj {c d : Char} {rest more : List UInt8}
    (h : String.utf8EncodeChar c ++ rest = String.utf8EncodeChar d ++ more) :
    c = d ∧ rest = more := by
  have hread (c : Char) (rest : List UInt8) :
      ByteArray.utf8DecodeChar? (String.utf8EncodeChar c ++ rest).toByteArray 0 = some c := by
    rw [List.toByteArray_append]
    exact ByteArray.utf8DecodeChar?_utf8EncodeChar_append
  have hsame : c = d := by
    have hfirst := hread c rest
    rw [h, hread d more] at hfirst
    exact (Option.some.inj hfirst).symm
  subst hsame
  exact ⟨rfl, List.append_cancel_left h⟩

theorem encodeChar_ne_nil (c : Char) : String.utf8EncodeChar c ≠ [] := by
  rw [← List.length_pos_iff, String.length_utf8EncodeChar]
  exact c.utf8Size_pos

theorem utf8_prefix_iff {text more : List Char} : utf8 text <+: utf8 more ↔ text <+: more := by
  constructor
  · intro h
    induction text generalizing more with
    | nil => exact List.nil_prefix
    | cons c text ih =>
        obtain ⟨rest, hrest⟩ := h
        cases more with
        | nil =>
            rw [utf8_cons, List.append_assoc, utf8_nil] at hrest
            exact absurd (List.append_eq_nil_iff.mp hrest).1 (encodeChar_ne_nil c)
        | cons d more =>
            rw [utf8_cons, utf8_cons, List.append_assoc] at hrest
            obtain ⟨rfl, hmore⟩ := encodeChar_append_inj hrest
            exact List.cons_prefix_cons.mpr ⟨rfl, ih ⟨rest, hmore⟩⟩
  · rintro ⟨rest, rfl⟩
    rw [utf8_append]
    exact List.prefix_append _ _

theorem utf8_injective : Function.Injective utf8 := by
  intro text more h
  have hprefix : text <+: more := utf8_prefix_iff.mp (h ▸ List.prefix_refl _)
  obtain ⟨rest, rfl⟩ := hprefix
  rw [utf8_append, List.self_eq_append_right] at h
  cases rest with
  | nil => rw [List.append_nil]
  | cons c rest =>
      rw [utf8_cons] at h
      exact absurd (List.append_eq_nil_iff.mp h).1 (encodeChar_ne_nil c)

/-- The bytes of a character that are not its first ones begin no text. -/
theorem eq_nil_of_encodeChar {c : Char} {front back : List UInt8} {text : List Char}
    (h : String.utf8EncodeChar c = front ++ back) (hfront : front ≠ []) {rest : List UInt8}
    (htext : utf8 text = back ++ rest) : back = [] := by
  cases back with
  | nil => rfl
  | cons b back =>
      cases text with
      | nil => exact absurd htext (by simp)
      | cons d text =>
          have hlater : ¬ b.IsUTF8FirstByte := by
            have hplace : front.length < (String.utf8EncodeChar c).length := by simp [h]
            have hbyte : (String.utf8EncodeChar c)[front.length] = b := by simp [h]
            rw [← hbyte, UInt8.isUTF8FirstByte_getElem_utf8EncodeChar]
            exact fun hzero => hfront (List.length_eq_zero_iff.mp hzero)
          have hfirst : b.IsUTF8FirstByte := by
            have hplace : 0 < (String.utf8EncodeChar d).length :=
              List.length_pos_iff.mpr (encodeChar_ne_nil d)
            have hbyte : (String.utf8EncodeChar d)[0]? = some b := by
              rw [← List.getElem?_append_left hplace, ← utf8_cons, htext]
              rfl
            rw [← (List.getElem?_eq_some_iff.mp hbyte).2,
              UInt8.isUTF8FirstByte_getElem_utf8EncodeChar]
          exact absurd hfirst hlater

theorem utf8_suffix_iff {text more : List Char} : utf8 text <:+ utf8 more ↔ text <:+ more := by
  constructor
  · rintro ⟨front, h⟩
    induction more generalizing front with
    | nil =>
        have hnil : utf8 text = utf8 [] := (List.append_eq_nil_iff.mp h).2
        rw [utf8_injective hnil]
    | cons c more ih =>
        rw [utf8_cons] at h
        -- the bytes of the text begin behind those of `c`, amid them or before them
        rcases List.append_eq_append_iff.mp h with ⟨back, hchar, htext⟩ | ⟨back, rfl, hmore⟩
        · cases front with
          | nil =>
              have hwhole : utf8 text = utf8 (c :: more) := by rw [utf8_cons, ← h, List.nil_append]
              rw [utf8_injective hwhole]
          | cons b front =>
              have hback := eq_nil_of_encodeChar hchar (List.cons_ne_nil b front) htext
              rw [hback, List.nil_append] at htext
              rw [utf8_injective htext]
              exact List.suffix_cons c more
        · exact (ih back hmore.symm).trans (List.suffix_cons c more)
  · rintro ⟨front, rfl⟩
    rw [utf8_append]
    exact List.suffix_append _ _

end CiPipeline.Text
