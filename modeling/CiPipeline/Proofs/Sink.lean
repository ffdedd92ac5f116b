import CiPipeline.Sink
import Mathlib.Data.List.Basic

/-!
# What reaches a sink

A sink holds the beginning of what is written to it, as far as there is room, and it makes no
difference where the bytes are cut. So an output has the text that it puts: it does to every sink
what writing that text at once does, also where the sink is full before the end.
-/

namespace CiPipeline

/-! ## Sinks -/

namespace Sink

/-- The sink has room for all of the bytes. -/
def Takes (sink : Sink) (bytes : List UInt8) : Prop := ∀ room ∈ sink.room, bytes.length ≤ room

instance (sink : Sink) (bytes : List UInt8) : Decidable (sink.Takes bytes) :=
  inferInstanceAs (Decidable (∀ room ∈ sink.room, bytes.length ≤ room))

variable {sink : Sink} {bytes : List UInt8}

theorem fitting_isPrefix (sink : Sink) (bytes : List UInt8) : sink.fitting bytes <+: bytes := by
  unfold fitting
  split
  · exact List.prefix_refl bytes
  · exact List.take_prefix _ bytes

theorem fitting_of_takes (h : sink.Takes bytes) : sink.fitting bytes = bytes := by
  unfold fitting
  split
  · rfl
  · next room hroom => exact List.take_of_length_le (h room hroom)

theorem length_fitting_eq_iff : (sink.fitting bytes).length = bytes.length ↔ sink.Takes bytes := by
  constructor
  · intro h room hroom
    rw [fitting, Option.mem_def.mp hroom, List.length_take] at h
    omega
  · intro h
    rw [fitting_of_takes h]

theorem write_of_takes (h : sink.Takes bytes) : sink.write bytes = (.ok (), sink.after bytes) := by
  rw [write, if_pos (length_fitting_eq_iff.mpr h)]

theorem write_of_not_takes (h : ¬ sink.Takes bytes) :
    sink.write bytes = (.error .full, sink.after bytes) := by
  rw [write, if_neg (mt length_fitting_eq_iff.mp h)]

theorem takes_append_iff {more : List UInt8} :
    sink.Takes (bytes ++ more) ↔ sink.Takes bytes ∧ (sink.after bytes).Takes more := by
  unfold Takes after
  cases sink.room with
  | none => simp
  | some room =>
      simp
      omega

theorem after_append (h : sink.Takes bytes) (more : List UInt8) :
    sink.after (bytes ++ more) = (sink.after bytes).after more := by
  unfold Takes at h
  rcases sink with ⟨_ | room, flushFails, held, flushed⟩
  · simp [after, fitting]
  · have hroom : bytes.length ≤ room := h room rfl
    have htake : bytes.take room = bytes := List.take_of_length_le hroom
    simp [after, fitting, List.take_append, htake, Nat.sub_sub]

theorem after_append_of_not_takes (h : ¬ sink.Takes bytes) (more : List UInt8) :
    sink.after (bytes ++ more) = sink.after bytes := by
  unfold Takes at h
  rcases sink with ⟨_ | room, flushFails, held, flushed⟩
  · simp at h
  · have hroom : room < bytes.length := by simpa using h
    have htake : (bytes ++ more).take room = bytes.take room :=
      List.take_append_of_le_length (by omega)
    simp only [after, fitting, htake, Option.map_some, List.length_append]
    congr 2
    omega

@[simp] theorem write_nil (sink : Sink) : sink.write [] = (.ok (), sink) := by
  rcases sink with ⟨_ | room, flushFails, held, flushed⟩
  · simp [write, after, fitting]
  · simp [write, after, fitting]

/-- Bytes may be cut anywhere: the first part is written, and the rest if the sink took it. -/
theorem write_append (sink : Sink) (bytes more : List UInt8) :
    sink.write (bytes ++ more) =
      match sink.write bytes with
      | (.ok (), next) => next.write more
      | (.error failure, next) => (.error failure, next) := by
  by_cases hfirst : sink.Takes bytes
  · rw [write_of_takes hfirst]
    by_cases hrest : (sink.after bytes).Takes more
    · rw [write_of_takes (takes_append_iff.mpr ⟨hfirst, hrest⟩), after_append hfirst]
      exact (write_of_takes hrest).symm
    · rw [write_of_not_takes (mt takes_append_iff.mp fun h => hrest h.2), after_append hfirst]
      exact (write_of_not_takes hrest).symm
  · rw [write_of_not_takes hfirst,
      write_of_not_takes (mt takes_append_iff.mp fun h => hfirst h.1),
      after_append_of_not_takes hfirst]

theorem flush_after_of_fails (h : sink.flushFails = true) (bytes : List UInt8) :
    (sink.after bytes).flush = (.error .flush, sink.after bytes) := if_pos h

theorem flush_after_of_not_fails (h : sink.flushFails = false) (bytes : List UInt8) :
    (sink.after bytes).flush = (.ok (), (sink.after bytes).settled) :=
  if_neg (ne_true_of_eq_false h)

end Sink

/-! ## Outputs -/

namespace Output

/-- What comes after an output is tried only if that did not fail. -/
theorem into_bind (first : Output α) (rest : α → Output β) (sink : Sink) :
    (first >>= rest).into sink =
      match first.into sink with
      | (.ok value, next) => (rest value).into next
      | (.error failure, next) => (.error failure, next) := by
  rw [into, ExceptT.run_bind]
  change StateT.bind _ _ sink = _
  rw [StateT.bind]
  rcases hfirst : first.into sink with ⟨_ | value, next⟩
  · rw [into] at hfirst
    rw [hfirst]
    rfl
  · rw [into] at hfirst
    rw [hfirst]
    rfl

/-- The output does to every sink what writing the text at once does. -/
def Puts (output : Output Unit) (text : List Char) : Prop :=
  ∀ sink, output.into sink = sink.write (Text.utf8 text)

theorem puts_put (text : List Char) : (put text).Puts text := fun _ => rfl

theorem puts_pure : (pure () : Output Unit).Puts [] := fun sink => sink.write_nil.symm

theorem Puts.bind {first rest : Output Unit} {text more : List Char} (hfirst : first.Puts text)
    (hrest : rest.Puts more) : Puts (do first; rest) (text ++ more) := by
  intro sink
  rw [into_bind, hfirst sink, Text.utf8_append, Sink.write_append]
  rcases sink.write (Text.utf8 text) with ⟨_ | _, next⟩
  · rfl
  · exact hrest next

/-- Parts of a text are put out one after the other. -/
theorem puts_forM (spell : α → List Char) (items : List α) :
    Puts (items.forM fun item => put (spell item)) (items.flatMap spell) := by
  induction items with
  | nil => exact puts_pure
  | cons item items ih => exact (puts_put (spell item)).bind ih

end Output

end CiPipeline
