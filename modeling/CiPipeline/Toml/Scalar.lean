import CiPipeline.Text.HexDigit

/-!
# Plain values of TOML

How numbers, truth values, dates and times are written. Each form is a predicate on the whole text
of a value; the text itself is found by `Toml.Reader`.
-/

namespace CiPipeline.Toml

def isGrouped (isDigit : Char → Bool) : List Char → Bool
  | [] => false
  | [c] => isDigit c
  | c :: '_' :: rest => isDigit c && isGrouped isDigit rest
  | c :: rest => isDigit c && isGrouped isDigit rest

def afterSign : List Char → List Char
  | '+' :: rest => rest
  | '-' :: rest => rest
  | text => text

/-- A whole number in decimal digits without sign and needless zeros. -/
def isWhole (text : List Char) : Bool :=
  isGrouped Char.isDigit text && (text.head? != some '0' || text.length == 1)

def isOctalDigit (c : Char) : Bool := '0' ≤ c && c ≤ '7'
def isBinaryDigit (c : Char) : Bool := c == '0' || c == '1'

/-- Whether every underscore stands between two hexadecimal digits. -/
def joinsDigits : List Char → Bool
  | [] => true
  | '_' :: _ => false
  | c :: '_' :: d :: rest => Text.isHexDigit c && Text.isHexDigit d && joinsDigits (d :: rest)
  | [_, '_'] => false
  | _ :: rest => joinsDigits rest

/-- A text that starts with a group of digits and an underscore, and in which there is neither a
space nor a mark of a float. Such a text is taken for an integer, whatever it goes on with. -/
def startsGroups (text : List Char) : Bool :=
  text.head?.any Char.isDigit && text.head? != some '0' &&
    (text.dropWhile Char.isDigit).head? == some '_' && joinsDigits text &&
    text.all fun c => c != ' ' && c != '.' && c != 'e' && c != 'E'

/-- Whether a text is taken for an integer: a decimal one, or one with a prefix that names its base.
It need not name a number, since digits behind a prefix may be missing and those behind an
underscore may be none. -/
def isInteger (text : List Char) : Bool :=
  match text with
  | '0' :: 'x' :: digits => digits.isEmpty || isGrouped Text.isHexDigit digits
  | '0' :: 'o' :: digits => digits.isEmpty || isGrouped isOctalDigit digits
  | '0' :: 'b' :: digits => digits.isEmpty || isGrouped isBinaryDigit digits
  | _ => isWhole (afterSign text) || startsGroups (afterSign text)

/-- The number that digits name, if they are digits of the base and at least one. -/
def natural? (base : Nat) (digits : List Char) : Option Nat :=
  if !digits.isEmpty && digits.all fun c => (Text.hexValue? c).any (· < base) then
    some (Text.digitsToNat base digits)
  else none

/-- The number that an integer names. Underscores do not count. -/
def integer? (text : List Char) : Option Int :=
  match text.filter (· != '_') with
  | '0' :: 'x' :: digits => (natural? 16 digits).map Int.ofNat
  | '0' :: 'o' :: digits => (natural? 8 digits).map Int.ofNat
  | '0' :: 'b' :: digits => (natural? 2 digits).map Int.ofNat
  | '-' :: digits => (natural? 10 digits).map fun n => -(n : Int)
  | text => (natural? 10 (afterSign text)).map Int.ofNat

example : integer? "0xdead_beef".toList = some 3735928559 := by decide +kernel

example : isInteger "1_F".toList = true ∧ integer? "1_F".toList = none := by decide +kernel

def isExponent : List Char → Bool
  | mark :: rest => (mark == 'e' || mark == 'E') && isGrouped Char.isDigit (afterSign rest)
  | [] => false

/-- A number with a fraction, an exponent or both, or one of the special numbers. -/
def isFloat (text : List Char) : Bool :=
  let size := afterSign text
  let inGroup (c : Char) : Bool := c.isDigit || c == '_'
  let whole := size.takeWhile inGroup
  match size.dropWhile inGroup with
  | '.' :: rest =>
      let exponent := rest.dropWhile inGroup
      isWhole whole && isGrouped Char.isDigit (rest.takeWhile inGroup) &&
        (exponent.isEmpty || isExponent exponent)
  | [] => false
  | rest => (isWhole whole && isExponent rest) || size == "inf".toList || size == "nan".toList

def twoDigits? : List Char → Option Nat
  | [a, b] => if a.isDigit && b.isDigit then some (Nat.ofDigitChars 10 [a, b] 0) else none
  | _ => none

def daysIn (year month : Nat) : Nat :=
  if month = 2 then
    if (year % 4 = 0 ∧ year % 100 ≠ 0) ∨ year % 400 = 0 then 29 else 28
  else if month = 4 ∨ month = 6 ∨ month = 9 ∨ month = 11 then 30
  else 31

/-- A day of the calendar, as in `1979-05-27`. -/
def isDate : List Char → Bool
  | [y1, y2, y3, y4, '-', m1, m2, '-', d1, d2] =>
      match twoDigits? [y1, y2], twoDigits? [y3, y4], twoDigits? [m1, m2], twoDigits? [d1, d2] with
      | some century, some year, some month, some day =>
          1 ≤ month && month ≤ 12 && 1 ≤ day && day ≤ daysIn (century * 100 + year) month
      | _, _, _, _ => false
  | _ => false

def isBelow (bound : Nat) (digits : List Char) : Bool :=
  match twoDigits? digits with
  | some n => n < bound
  | none => false

/-- A time of day, as in `07:32:00.5`; seconds and their fraction may be missing. -/
def isTime : List Char → Bool
  | h1 :: h2 :: ':' :: m1 :: m2 :: rest =>
      isBelow 24 [h1, h2] && isBelow 60 [m1, m2] &&
        match rest with
        | [] => true
        | ':' :: s1 :: s2 :: rest =>
            isBelow 61 [s1, s2] &&
              match rest with
              | [] => true
              | '.' :: fraction => !fraction.isEmpty && fraction.all Char.isDigit
              | _ => false
        | _ => false
  | _ => false

/-- The distance of a clock from universal time, as in `Z` or `+01:00`. -/
def isOffset : List Char → Bool
  | [c] => c == 'Z' || c == 'z'
  | [sign, h1, h2, ':', m1, m2] =>
      (sign == '+' || sign == '-') && isBelow 24 [h1, h2] && isBelow 60 [m1, m2]
  | _ => false

/-- A date, a time, or both with an optional offset. -/
def isDateTime (text : List Char) : Bool :=
  isTime text ||
    isDate (text.take 10) &&
      match text.drop 10 with
      | [] => true
      | separator :: rest =>
          let isOfTime (c : Char) : Bool := c.isDigit || c == ':' || c == '.'
          let offset := rest.dropWhile isOfTime
          (separator == 'T' || separator == 't' || separator == ' ') &&
            isTime (rest.takeWhile isOfTime) && (offset.isEmpty || isOffset offset)

end CiPipeline.Toml
