import CiPipeline.Kubernetes
import Mathlib.Data.List.TakeWhile

/-!
# What counts as an amount

The written forms of amounts, as a grammar over digits of any kind. Amounts are checked for these
forms with the decimal digits of all scripts. Main statement: which amount of some options is
reported; of the forms that are let through, those with plain digits are the ones that hold no
other digit.
-/

namespace CiPipeline

namespace Quantity

open Text

/-! ## Forms -/

section Forms

variable (isDigit : Char → Bool)

/-- One digit or more. -/
def Digits (text : List Char) : Prop := text ≠ [] ∧ ∀ c ∈ text, isDigit c = true

/-- Digits and a unit, which `i` makes a binary one. -/
inductive MemoryForm : List Char → Prop where
  | decimal {digits : List Char} {unit : Char} (hdigits : Digits isDigit digits)
      (hunit : unit ∈ memoryUnits) : MemoryForm (digits ++ [unit])
  | binary {digits : List Char} {unit : Char} (hdigits : Digits isDigit digits)
      (hunit : unit ∈ memoryUnits) : MemoryForm (digits ++ [unit, 'i'])

/-- Digits, digits that count thousandths, or digits on both sides of a point. -/
inductive ProcessorForm : List Char → Prop where
  | whole {digits : List Char} (hdigits : Digits isDigit digits) : ProcessorForm digits
  | thousandths {digits : List Char} (hdigits : Digits isDigit digits) :
      ProcessorForm (digits ++ ['m'])
  | fractional {whole fraction : List Char} (hwhole : Digits isDigit whole)
      (hfraction : Digits isDigit fraction) : ProcessorForm (whole ++ '.' :: fraction)

/-- An amount that is not given, or given in its form. -/
def Admitted : KubernetesOptions.Amount → String → Prop
  | .memory, text => text = "" ∨ MemoryForm isDigit text.toList
  | .cpu, text => text = "" ∨ ProcessorForm isDigit text.toList

end Forms

/-! ## Recognising forms -/

variable {text digits rest : List Char}

theorem exists_digits_of_afterDigits? (h : afterDigits? text = some rest) :
    ∃ digits, Digits isDecimalDigit digits ∧ text = digits ++ rest := by
  unfold afterDigits? at h
  split at h
  · cases h
  · next first more htaken =>
      cases h
      refine ⟨first :: more, ⟨by simp, fun c hc => ?_⟩, ?_⟩
      · rw [← htaken] at hc
        exact List.mem_takeWhile_imp hc
      · rw [← htaken, List.takeWhile_append_dropWhile]

/-- What follows the digits starts with something else. -/
theorem afterDigits?_append (hdigits : Digits isDecimalDigit digits)
    (hrest : ∀ c ∈ rest.head?, isDecimalDigit c = false) :
    afterDigits? (digits ++ rest) = some rest := by
  have hstop : rest.takeWhile isDecimalDigit = [] ∧ rest.dropWhile isDecimalDigit = rest := by
    cases rest with
    | nil => exact ⟨rfl, rfl⟩
    | cons c rest =>
        have hc : ¬ isDecimalDigit c = true := by simp [hrest c rfl]
        exact ⟨List.takeWhile_cons_of_neg hc, List.dropWhile_cons_of_neg hc⟩
  obtain ⟨first, more, rfl⟩ := List.exists_cons_of_ne_nil hdigits.1
  rw [afterDigits?, List.takeWhile_append_of_pos hdigits.2, hstop.1, List.append_nil]
  dsimp only
  rw [List.dropWhile_append_of_pos hdigits.2, hstop.2]

theorem afterDigits?_of_digits (hdigits : Digits isDecimalDigit digits) :
    afterDigits? digits = some [] := by
  have hafter : afterDigits? (digits ++ []) = some [] := afterDigits?_append hdigits (by simp)
  rwa [List.append_nil] at hafter

theorem isDecimalDigit_of_mem_memoryUnits {unit : Char} (h : unit ∈ memoryUnits) :
    isDecimalDigit unit = false := by
  have hall : memoryUnits.all (fun unit => !isDecimalDigit unit) = true := by decide
  simpa using List.all_eq_true.mp hall unit h

theorem isMemory_iff : isMemory text = true ↔ MemoryForm isDecimalDigit text := by
  constructor
  · intro h
    unfold isMemory at h
    split at h
    · next unit hafter =>
        obtain ⟨digits, hdigits, rfl⟩ := exists_digits_of_afterDigits? hafter
        exact .decimal hdigits (List.contains_iff_mem.mp h)
    · next unit hafter =>
        obtain ⟨digits, hdigits, rfl⟩ := exists_digits_of_afterDigits? hafter
        exact .binary hdigits (List.contains_iff_mem.mp h)
    · cases h
  · intro h
    cases h with
    | decimal hdigits hunit | binary hdigits hunit =>
        have hother := isDecimalDigit_of_mem_memoryUnits hunit
        rw [isMemory, afterDigits?_append hdigits (by simpa using hother)]
        exact List.contains_iff_mem.mpr hunit

theorem isProcessor_iff : isProcessor text = true ↔ ProcessorForm isDecimalDigit text := by
  constructor
  · intro h
    unfold isProcessor at h
    split at h
    · next hafter =>
        obtain ⟨digits, hdigits, rfl⟩ := exists_digits_of_afterDigits? hafter
        rw [List.append_nil]
        exact .whole hdigits
    · next hafter =>
        obtain ⟨digits, hdigits, rfl⟩ := exists_digits_of_afterDigits? hafter
        exact .thousandths hdigits
    · next fraction hafter =>
        obtain ⟨whole, hwhole, rfl⟩ := exists_digits_of_afterDigits? hafter
        obtain ⟨digits, hdigits, rfl⟩ := exists_digits_of_afterDigits? (beq_iff_eq.mp h)
        rw [List.append_nil]
        exact .fractional hwhole hdigits
    · cases h
  · intro h
    cases h with
    | whole hdigits => rw [isProcessor, afterDigits?_of_digits hdigits]
    | thousandths hdigits =>
        have hletter : isDecimalDigit 'm' = false := by decide
        rw [isProcessor, afterDigits?_append hdigits (by simpa using hletter)]
        rfl
    | fractional hwhole hfraction =>
        have hpoint : isDecimalDigit '.' = false := by decide
        rw [isProcessor, afterDigits?_append hwhole (by simpa using hpoint)]
        exact beq_iff_eq.mpr (afterDigits?_of_digits hfraction)

/-! ## Plain digits -/

/-- All decimal digits of the text are those of ASCII text. -/
def Plain (text : List Char) : Prop := ∀ c ∈ text, isDecimalDigit c = true → c.isDigit = true

theorem plain_append {more : List Char} : Plain (text ++ more) ↔ Plain text ∧ Plain more :=
  List.forall_mem_append

theorem plain_of_no_digit (h : ∀ c ∈ text, isDecimalDigit c = false) : Plain text := by
  intro c hc hdigit
  rw [h c hc] at hdigit
  cases hdigit

theorem digits_isDigit_iff :
    Digits Char.isDigit text ↔ Digits isDecimalDigit text ∧ Plain text := by
  constructor
  · rintro ⟨hne, hplain⟩
    exact ⟨⟨hne, fun c hc => isDecimalDigit_of_isDigit (hplain c hc)⟩, fun c hc _ => hplain c hc⟩
  · rintro ⟨⟨hne, hdigits⟩, hplain⟩
    exact ⟨hne, fun c hc => hplain c hc (hdigits c hc)⟩

theorem memoryForm_isDigit_iff :
    MemoryForm Char.isDigit text ↔ MemoryForm isDecimalDigit text ∧ Plain text := by
  have hunits {unit : Char} (hunit : unit ∈ memoryUnits) : Plain [unit] ∧ Plain [unit, 'i'] := by
    have hother := isDecimalDigit_of_mem_memoryUnits hunit
    have hletter : isDecimalDigit 'i' = false := by decide
    exact ⟨plain_of_no_digit (by simpa using hother),
      plain_of_no_digit (by simpa using ⟨hother, hletter⟩)⟩
  constructor
  · intro h
    cases h with
    | decimal hdigits hunit =>
        obtain ⟨hdigits, hplain⟩ := digits_isDigit_iff.mp hdigits
        exact ⟨.decimal hdigits hunit, plain_append.mpr ⟨hplain, (hunits hunit).1⟩⟩
    | binary hdigits hunit =>
        obtain ⟨hdigits, hplain⟩ := digits_isDigit_iff.mp hdigits
        exact ⟨.binary hdigits hunit, plain_append.mpr ⟨hplain, (hunits hunit).2⟩⟩
  · rintro ⟨h, hplain⟩
    cases h with
    | decimal hdigits hunit =>
        exact .decimal (digits_isDigit_iff.mpr ⟨hdigits, (plain_append.mp hplain).1⟩) hunit
    | binary hdigits hunit =>
        exact .binary (digits_isDigit_iff.mpr ⟨hdigits, (plain_append.mp hplain).1⟩) hunit

theorem processorForm_isDigit_iff :
    ProcessorForm Char.isDigit text ↔ ProcessorForm isDecimalDigit text ∧ Plain text := by
  have hmarks : isDecimalDigit 'm' = false ∧ isDecimalDigit '.' = false := by decide
  have hletter : Plain ['m'] := plain_of_no_digit (by simpa using hmarks.1)
  have hpoint : Plain ['.'] := plain_of_no_digit (by simpa using hmarks.2)
  have hsplit (fraction : List Char) : '.' :: fraction = ['.'] ++ fraction := rfl
  constructor
  · intro h
    cases h with
    | whole hdigits =>
        obtain ⟨hdigits, hplain⟩ := digits_isDigit_iff.mp hdigits
        exact ⟨.whole hdigits, hplain⟩
    | thousandths hdigits =>
        obtain ⟨hdigits, hplain⟩ := digits_isDigit_iff.mp hdigits
        exact ⟨.thousandths hdigits, plain_append.mpr ⟨hplain, hletter⟩⟩
    | fractional hwhole hfraction =>
        obtain ⟨hwhole, hbefore⟩ := digits_isDigit_iff.mp hwhole
        obtain ⟨hfraction, hafter⟩ := digits_isDigit_iff.mp hfraction
        refine ⟨.fractional hwhole hfraction, ?_⟩
        rw [hsplit, plain_append, plain_append]
        exact ⟨hbefore, hpoint, hafter⟩
  · rintro ⟨h, hplain⟩
    cases h with
    | whole hdigits => exact .whole (digits_isDigit_iff.mpr ⟨hdigits, hplain⟩)
    | thousandths hdigits =>
        exact .thousandths (digits_isDigit_iff.mpr ⟨hdigits, (plain_append.mp hplain).1⟩)
    | fractional hwhole hfraction =>
        rw [hsplit, plain_append, plain_append] at hplain
        obtain ⟨hbefore, -, hafter⟩ := hplain
        exact .fractional (digits_isDigit_iff.mpr ⟨hwhole, hbefore⟩)
          (digits_isDigit_iff.mpr ⟨hfraction, hafter⟩)

theorem admitted_isDigit_iff {amount : KubernetesOptions.Amount} {text : String} :
    Admitted Char.isDigit amount text ↔
      Admitted isDecimalDigit amount text ∧ Plain text.toList := by
  have hempty : text = "" → Plain text.toList := by
    rintro rfl
    exact plain_of_no_digit (by simp)
  cases amount with
  | memory =>
      rw [Admitted, Admitted, memoryForm_isDigit_iff, or_and_right, and_iff_left_of_imp hempty]
  | cpu =>
      rw [Admitted, Admitted, processorForm_isDigit_iff, or_and_right, and_iff_left_of_imp hempty]

end Quantity

/-! ## Reports -/

namespace KubernetesOptions

open Quantity Text

theorem refused_memory_iff {text : String} :
    (!text.isEmpty && !isMemory text.toList) = true ↔ ¬ Admitted isDecimalDigit .memory text := by
  rw [Admitted, ← isMemory_iff]
  simp

theorem refused_cpu_iff {text : String} :
    (!text.isEmpty && !isProcessor text.toList) = true ↔ ¬ Admitted isDecimalDigit .cpu text := by
  rw [Admitted, ← isProcessor_iff]
  simp

/-- An amount of memory is reported if it is given in no form of memory, and an amount of processors
if it is given in no form of these and the memory is let through. The digits of a form are those of
all scripts; the plain forms are those that hold no other digits than plain ones. -/
theorem reported_amounts_exact (options : KubernetesOptions) :
    (∀ value, options.malformed? = some (.memory, value) ↔
      value = options.memory ∧ ¬ Admitted isDecimalDigit .memory options.memory) ∧
    (∀ value, options.malformed? = some (.cpu, value) ↔
      value = options.cpu ∧ Admitted isDecimalDigit .memory options.memory ∧
        ¬ Admitted isDecimalDigit .cpu options.cpu) ∧
    (options.malformed? = none ↔
      Admitted isDecimalDigit .memory options.memory ∧
        Admitted isDecimalDigit .cpu options.cpu) ∧
    ∀ amount text, Admitted Char.isDigit amount text ↔
      Admitted isDecimalDigit amount text ∧ Plain text.toList := by
  rw [← and_assoc, ← and_assoc]
  refine ⟨?_, fun amount text => admitted_isDigit_iff⟩
  rw [and_assoc, malformed?]
  by_cases hmemory : Admitted isDecimalDigit .memory options.memory
  · rw [if_neg (mt refused_memory_iff.mp (not_not_intro hmemory))]
    by_cases hcpu : Admitted isDecimalDigit .cpu options.cpu
    · rw [if_neg (mt refused_cpu_iff.mp (not_not_intro hcpu))]
      simp [hmemory, hcpu]
    · rw [if_pos (refused_cpu_iff.mpr hcpu)]
      simp [hmemory, hcpu, eq_comm]
  · rw [if_pos (refused_memory_iff.mpr hmemory)]
    simp [hmemory, eq_comm]

/-- An amount of memory in the digits of another script is let through. -/
theorem memory_in_other_digits :
    malformed? ⟨"\u0663Gi", "", 0, ""⟩ = none ∧
      ¬ Admitted Char.isDigit .memory "\u0663Gi" := by
  refine ⟨by decide +kernel, fun hadmitted => ?_⟩
  have hplain : Plain "\u0663Gi".toList := (admitted_isDigit_iff.mp hadmitted).2
  have hdigit : '\u0663'.isDigit = true := hplain '\u0663' (by decide +kernel) (by decide +kernel)
  cases hdigit

end KubernetesOptions

end CiPipeline
