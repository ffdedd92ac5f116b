import CiPipeline.Text.DecimalDigit

/-!
# Quantities

The written forms of amounts of memory and of processor time.
-/

namespace CiPipeline.Quantity

open Text

def memoryUnits : List Char := ['E', 'P', 'T', 'G', 'M', 'K']

/-- The text after its leading decimal digits, if there is at least one digit. -/
def afterDigits? (text : List Char) : Option (List Char) :=
  match text.takeWhile isDecimalDigit with
  | [] => none
  | _ :: _ => some (text.dropWhile isDecimalDigit)

/-- Digits, one unit letter, and `i` for the binary units. -/
def isMemory (text : List Char) : Bool :=
  match afterDigits? text with
  | some [unit] => memoryUnits.contains unit
  | some [unit, 'i'] => memoryUnits.contains unit
  | _ => false

/-- Digits alone, digits in thousandths with `m`, or digits on both sides of a point. -/
def isProcessor (text : List Char) : Bool :=
  match afterDigits? text with
  | some [] => true
  | some ['m'] => true
  | some ('.' :: fraction) => afterDigits? fraction == some []
  | _ => false

end CiPipeline.Quantity
