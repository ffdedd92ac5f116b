import CiPipeline.Json.Basic
import CiPipeline.Proofs.Json.Scanner

/-!
# Reading written values

The reader gives back the value that tokens were written from, whatever values are still open
around it. With the scanner, a value is read from each of its texts, and it is read back from its
compact text if its numbers are spelled as numbers.
-/

namespace CiPipeline.Json

/-! ## Values from tokens -/

namespace Reader

/-- Where an item may come, what is not a closing bracket starts one. -/
theorem run?_firstItem (value : Json) (outer : List Open) (rest : List Token) :
    run? (.firstItem outer) (value.toTokens ++ rest) =
      run? (.start (.array [] :: outer)) (value.toTokens ++ rest) := by
  cases value with
  | null | number | string | array | object => rfl
  | bool b => cases b <;> rfl

mutual

theorem run?_toTokens : ∀ (value : Json) (outer : List Open) (rest : List Token),
    run? (.start outer) (value.toTokens ++ rest) = run? (.done value outer) rest
  | .null, _, _ => rfl
  | .bool true, _, _ => rfl
  | .bool false, _, _ => rfl
  | .number _, _, _ => rfl
  | .string _, _, _ => rfl
  | .array [], _, _ => rfl
  | .array (item :: items), outer, rest => by
      have hopen : run? (.start outer) ((Json.array (item :: items)).toTokens ++ rest) =
          run? (.firstItem outer) (item.toTokens ++ (moreItemTokens items ++ rest)) := by
        rw [toTokens, itemTokens, List.cons_append, List.append_assoc]
        rfl
      rw [hopen, run?_firstItem, run?_toTokens item, run?_moreItemTokens items]
      rfl
  | .object [], _, _ => rfl
  | .object ((name, value) :: members), outer, rest => by
      have hopen : run? (.start outer) ((Json.object ((name, value) :: members)).toTokens ++ rest) =
          run? (.start (.object [] name :: outer))
            (value.toTokens ++ (moreMemberTokens members ++ rest)) := by
        rw [toTokens, memberTokens, List.cons_append, List.cons_append, List.cons_append,
          List.append_assoc]
        rfl
      rw [hopen, run?_toTokens value, run?_moreMemberTokens members]
      rfl

/-- The items that are read are kept newest first. -/
theorem run?_moreItemTokens : ∀ (items : List Json) (item : Json) (read : List Json)
    (outer : List Open) (rest : List Token),
    run? (.done item (.array read :: outer)) (moreItemTokens items ++ rest) =
      run? (.done (.array ((item :: read).reverse ++ items)) outer) rest
  | [], item, read, outer, rest => by
      rw [moreItemTokens, List.append_nil]
      rfl
  | next :: items, item, read, outer, rest => by
      have hcomma :
          run? (.done item (.array read :: outer)) (moreItemTokens (next :: items) ++ rest) =
          run? (.start (.array (item :: read) :: outer))
            (next.toTokens ++ (moreItemTokens items ++ rest)) := by
        rw [moreItemTokens, List.cons_append, List.append_assoc]
        rfl
      rw [hcomma, run?_toTokens next, run?_moreItemTokens items, List.reverse_cons,
        List.append_assoc]
      rfl

theorem run?_moreMemberTokens : ∀ (members : List (Content × Json)) (value : Json)
    (name : Content) (read : List (Content × Json)) (outer : List Open) (rest : List Token),
    run? (.done value (.object read name :: outer)) (moreMemberTokens members ++ rest) =
      run? (.done (.object (((name, value) :: read).reverse ++ members)) outer) rest
  | [], value, name, read, outer, rest => by
      rw [moreMemberTokens, List.append_nil]
      rfl
  | (other, next) :: members, value, name, read, outer, rest => by
      have hcomma : run? (.done value (.object read name :: outer))
            (moreMemberTokens ((other, next) :: members) ++ rest) =
          run? (.start (.object ((name, value) :: read) other :: outer))
            (next.toTokens ++ (moreMemberTokens members ++ rest)) := by
        rw [moreMemberTokens, List.cons_append, List.cons_append, List.cons_append,
          List.append_assoc]
        rfl
      rw [hcomma, run?_toTokens next, run?_moreMemberTokens members, List.reverse_cons,
        List.append_assoc]
      rfl

end

end Reader

/-- A value is read from its tokens. -/
theorem ofTokens?_toTokens (value : Json) : ofTokens? value.toTokens = some value := by
  have hrun := Reader.run?_toTokens value [] []
  rw [List.append_nil] at hrun
  rw [ofTokens?, hrun]
  rfl

/-! ## Tokens of values -/

/-- Tokens before which a number or a word may stand. -/
def Delimited (tokens : List Token) : Prop :=
  Separated tokens ∧ ∀ next ∈ tokens.head?, next.isOpenEnded = false

theorem Delimited.cons {token : Token} {tokens : List Token} (h : Delimited tokens) :
    Separated (token :: tokens) :=
  List.isChain_cons.mpr ⟨fun next hnext _ => h.2 next hnext, h.1⟩

/-- In front of a token that has an end of its own anything may stand. -/
theorem Separated.cons {token : Token} {tokens : List Token} (h : Separated tokens)
    (htoken : token.isOpenEnded = false) : Delimited (token :: tokens) := by
  refine ⟨List.isChain_cons.mpr ⟨fun next _ hopen => ?_, h⟩, fun next hnext => ?_⟩
  · rw [htoken] at hopen
    cases hopen
  · cases hnext
    exact htoken

mutual

theorem separated_toTokens : ∀ (value : Json) {rest : List Token}, Delimited rest →
    Separated (value.toTokens ++ rest)
  | .null, _, h => h.cons
  | .bool true, _, h => h.cons
  | .bool false, _, h => h.cons
  | .number _, _, h => h.cons
  | .string _, _, h => h.cons
  | .array [], _, h => (Separated.cons h.cons rfl).1
  | .array (item :: items), rest, h => by
      have hitem := separated_toTokens item (delimited_moreItemTokens items h)
      rw [toTokens, itemTokens, List.cons_append, List.append_assoc]
      exact (hitem.cons rfl).1
  | .object [], _, h => (Separated.cons h.cons rfl).1
  | .object ((name, value) :: members), rest, h => by
      have hvalue := separated_toTokens value (delimited_moreMemberTokens members h)
      rw [toTokens, memberTokens, List.cons_append, List.cons_append, List.cons_append,
        List.append_assoc]
      exact (((hvalue.cons rfl).1.cons rfl).1.cons rfl).1

theorem delimited_moreItemTokens : ∀ (items : List Json) {rest : List Token}, Delimited rest →
    Delimited (moreItemTokens items ++ rest)
  | [], _, h => Separated.cons h.1 rfl
  | item :: items, rest, h => by
      have hitem := separated_toTokens item (delimited_moreItemTokens items h)
      rw [moreItemTokens, List.cons_append, List.append_assoc]
      exact hitem.cons rfl

theorem delimited_moreMemberTokens : ∀ (members : List (Content × Json)) {rest : List Token},
    Delimited rest → Delimited (moreMemberTokens members ++ rest)
  | [], _, h => Separated.cons h.1 rfl
  | (name, value) :: members, rest, h => by
      have hvalue := separated_toTokens value (delimited_moreMemberTokens members h)
      rw [moreMemberTokens, List.cons_append, List.cons_append, List.cons_append,
        List.append_assoc]
      exact ((hvalue.cons rfl).1.cons rfl).1.cons rfl

end

/-! ## Readable values -/

/-- A value whose numbers are spelled as numbers. -/
def Readable (value : Json) : Prop := ∀ token ∈ value.toTokens, token.Readable

theorem readable_string (content : Content) : (Json.string content).Readable := by
  intro token htoken
  rw [toTokens, List.mem_singleton] at htoken
  subst htoken
  trivial

theorem readable_number {text : List Char} (h : isNumber text = true) :
    (Json.number text).Readable := by
  intro token htoken
  rw [toTokens, List.mem_singleton] at htoken
  subst htoken
  exact h

theorem readable_moreItemTokens {items : List Json} (h : ∀ item ∈ items, item.Readable) :
    ∀ token ∈ moreItemTokens items, token.Readable := by
  induction items with
  | nil => simp [moreItemTokens, Token.Readable]
  | cons item items ih =>
      rw [List.forall_mem_cons] at h
      rw [moreItemTokens, List.forall_mem_cons, List.forall_mem_append]
      exact ⟨trivial, h.1, ih h.2⟩

theorem readable_array {items : List Json} (h : ∀ item ∈ items, item.Readable) :
    (Json.array items).Readable := by
  rw [Readable, toTokens, List.forall_mem_cons]
  refine ⟨trivial, ?_⟩
  cases items with
  | nil => simp [itemTokens, Token.Readable]
  | cons item items =>
      rw [List.forall_mem_cons] at h
      rw [itemTokens, List.forall_mem_append]
      exact ⟨h.1, readable_moreItemTokens h.2⟩

theorem readable_moreMemberTokens {members : List (Content × Json)}
    (h : ∀ member ∈ members, member.2.Readable) :
    ∀ token ∈ moreMemberTokens members, token.Readable := by
  induction members with
  | nil => simp [moreMemberTokens, Token.Readable]
  | cons member members ih =>
      rw [List.forall_mem_cons] at h
      rw [moreMemberTokens, List.forall_mem_cons, List.forall_mem_cons, List.forall_mem_cons,
        List.forall_mem_append]
      exact ⟨trivial, trivial, trivial, h.1, ih h.2⟩

theorem readable_object {members : List (Content × Json)}
    (h : ∀ member ∈ members, member.2.Readable) : (Json.object members).Readable := by
  rw [Readable, toTokens, List.forall_mem_cons]
  refine ⟨trivial, ?_⟩
  cases members with
  | nil => simp [memberTokens, Token.Readable]
  | cons member members =>
      rw [List.forall_mem_cons] at h
      rw [memberTokens, List.forall_mem_cons, List.forall_mem_cons, List.forall_mem_append]
      exact ⟨trivial, trivial, h.1, readable_moreMemberTokens h.2⟩

/-- A value is read from each of its texts. -/
theorem parse?_of_spelledAs {value : Json} {text : String} (h : value.SpelledAs text.toList) :
    parse? text = some value := by
  have hend : Delimited [] := ⟨List.IsChain.nil, by simp⟩
  have hseparated : Separated value.toTokens := by
    have happend := separated_toTokens value hend
    rwa [List.append_nil] at happend
  rw [parse?, tokens?_of_spacedAs h hseparated, Option.bind_some, ofTokens?_toTokens]

/-- A value is read back from its compact text. -/
theorem parse?_compact {value : Json} (h : value.Readable) : parse? value.compact = some value := by
  apply parse?_of_spelledAs
  rw [compact, String.toList_ofList]
  exact spacedAs_spell h

/-! ## Whole numbers -/

/-- The decimal digits of a number start with a zero for zero only. -/
theorem head?_toDigits_ne_zero {n : Nat} (h : 0 < n) : (Nat.toDigits 10 n).head? ≠ some '0' := by
  induction n using Nat.strongRecOn with
  | _ n ih =>
      by_cases hlt : n < 10
      · have hdigit : ∀ digit < 10, 0 < digit → [digit.digitChar].head? ≠ some '0' := by decide
        rw [Nat.toDigits_of_lt_base hlt]
        exact hdigit n hlt h
      · rw [Nat.toDigits_of_base_le (by omega) (by omega)]
        have hrest := ih (n / 10) (by omega) (by omega)
        have hne : Nat.toDigits 10 (n / 10) ≠ [] := Nat.toDigits_ne_nil
        rwa [List.head?_append_of_ne_nil _ hne]

theorem isDigit_of_mem_toDigits {n : Nat} {c : Char} (h : c ∈ Nat.toDigits 10 n) :
    isDigit c = true :=
  Nat.isDigit_of_mem_toDigits (by decide) (by decide) h

theorem isNumber_toDigits (n : Nat) : isNumber (Nat.toDigits 10 n) = true := by
  by_cases hn : n = 0
  · subst hn
    decide
  · have hdigits : ∀ c ∈ Nat.toDigits 10 n, isDigit c = true := fun c => isDigit_of_mem_toDigits
    have hzero := head?_toDigits_ne_zero (Nat.pos_of_ne_zero hn)
    have hne : Nat.toDigits 10 n ≠ [] := Nat.toDigits_ne_nil
    obtain ⟨digit, rest, htext⟩ := List.exists_cons_of_ne_nil hne
    rw [htext] at hdigits hzero ⊢
    rw [List.forall_mem_cons] at hdigits
    have hminus : digit ≠ '-' := by
      rintro rfl
      exact absurd hdigits.1 (by decide)
    have hfirst : digit ≠ '0' := fun h => hzero (by rw [h, List.head?_cons])
    have hrest : rest.dropWhile isDigit = [] := List.dropWhile_eq_nil_iff.mpr hdigits.2
    simp [isNumber, isSize, hminus, hdigits.1, hrest, isFraction, isExponent]

theorem readable_ofNat (n : Nat) : (ofNat n).Readable := readable_number (isNumber_toDigits n)

end CiPipeline.Json
