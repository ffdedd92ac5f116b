import CiPipeline.Glob.Pattern
import CiPipeline.Text.Utf8

/-!
# Matching by rows

A subject of `n` bytes has the positions `0` to `n`. A row has a mark for each of them: it is set
where the elements read so far can end. Each element turns one row into the next in a single pass,
so the work grows with the length of the pattern times that of the subject and never backtracks.
A pattern always speaks about the whole subject, and a slash is a byte like any other to a star.
-/

namespace CiPipeline.Glob

abbrev Bytes := List UInt8

/-- One mark for every position of a subject. -/
abbrev Row := List Bool

/-- The inclusive byte ranges of a range of characters. The bytes of a character that needs
several stand one by one, and the range proper runs from the last byte of its first character to
the first byte of its last one. -/
def byteRanges (first last : Char) : List (UInt8 × UInt8) :=
  let singles (bytes : Bytes) := bytes.map fun b => (b, b)
  if first = last then singles (String.utf8EncodeChar first)
  else
    match (String.utf8EncodeChar first).reverse, String.utf8EncodeChar last with
    | low :: front, high :: back => singles front.reverse ++ (low, high) :: singles back
    | front, back => singles (front ++ back)

def ByteClass.has (bytes : ByteClass) (b : UInt8) : Bool :=
  let named := bytes.ranges.any fun range =>
    (byteRanges range.1 range.2).any fun bounds => bounds.1 ≤ b && b ≤ bounds.2
  named != bytes.negated

/-- Moves every mark over one byte, where that byte is accepted. -/
def advance (accept : UInt8 → Bool) (subject : Bytes) (row : Row) : Row :=
  false :: List.zipWith (fun b mark => mark && accept b) subject row

def spread (row : Row) : Row := go false row
where
  go (seen : Bool) : Row → Row
    | [] => []
    | mark :: rest => (seen || mark) :: go (seen || mark) rest

def union (row other : Row) : Row := List.zipWith (· || ·) row other

def isSlash (b : UInt8) : Bool := b == 47

mutual

/-- Whether an element stands for no text at all: braces in which every branch is like that. -/
def Element.isVoid : Element → Bool
  | .oneOf branches => allVoid branches
  | _ => false

def sequenceIsVoid : List Element → Bool
  | [] => true
  | element :: rest => element.isVoid && sequenceIsVoid rest

def allVoid : List (List Element) → Bool
  | [] => true
  | branch :: rest => sequenceIsVoid branch && allVoid rest

end

mutual

/-- The positions where an element can end that starts at a marked one. -/
def Element.run (subject : Bytes) : Element → Row → Row
  | .literal c, row =>
      (String.utf8EncodeChar c).foldl (fun row b => advance (· == b) subject row) row
  | .anyByte, row => advance (fun _ => true) subject row
  | .anyBytes, row => spread row
  | .leadingPath, row => union row (advance isSlash subject (spread row))
  | .trailingPath, row => spread (advance isSlash subject row)
  | .innerPath, row =>
      let behind := advance isSlash subject row
      union behind (advance isSlash subject (spread behind))
  | .bytes bytes, row => advance bytes.has subject row
  | .oneOf branches, row => if allVoid branches then row else runAny subject branches row

def runSequence (subject : Bytes) : List Element → Row → Row
  | [], row => row
  | element :: rest, row => runSequence subject rest (element.run subject row)

/-- A branch that stands for no text is left out. -/
def runAny (subject : Bytes) : List (List Element) → Row → Row
  | [], row => row.map fun _ => false
  | branch :: rest, row =>
      if sequenceIsVoid branch then runAny subject rest row
      else union (runSequence subject branch row) (runAny subject rest row)

end

def startRow (subject : Bytes) : Row := true :: subject.map fun _ => false

/-- Whether the elements can end where the subject ends. A pattern that is nothing but a run of
directories accepts every subject. -/
def accepts (elements : List Element) (subject : Bytes) : Bool :=
  match elements with
  | [.leadingPath] => true
  | elements => (runSequence subject elements (startRow subject)).getLast?.getD false

/-- Whether a pattern accepts a text; an invalid pattern gives no answer. -/
def test? (pattern subject : List Char) : Option Bool :=
  (elements? pattern).map fun elements => accepts elements (Text.utf8 subject)

@[simp] theorem length_advance {accept : UInt8 → Bool} {subject : Bytes} {row : Row}
    (h : row.length = subject.length + 1) :
    (advance accept subject row).length = subject.length + 1 := by
  simp [advance, h]

@[simp] theorem length_spread (row : Row) : (spread row).length = row.length := by
  have go (row : Row) : ∀ seen, (spread.go seen row).length = row.length := by
    induction row with
    | nil => intro seen; rfl
    | cons mark rest ih => intro seen; simp [spread.go, ih]
  exact go row false

@[simp] theorem length_startRow (subject : Bytes) :
    (startRow subject).length = subject.length + 1 := by
  simp [startRow]

end CiPipeline.Glob
