/-!
# Glob patterns

A pattern is first cut into symbols, one for each special character, escaped character or class;
the symbols are then put together into a tree of elements. A pattern that cannot be read has none.
-/

namespace CiPipeline.Glob

/-- A byte class in brackets: inclusive ranges of characters, read as the bytes that spell them. -/
structure ByteClass where
  /-- Whether the class stands for the bytes it does not name. -/
  negated : Bool
  ranges : List (Char × Char)
deriving DecidableEq

/-- A piece of the text of a pattern. -/
inductive Symbol where
  | star
  | question
  | openBrace
  | closeBrace
  | comma
  | plain (c : Char)
  | escaped (c : Char)
  | bracket (bytes : ByteClass)
deriving DecidableEq

def Symbol.lastChar : Symbol → Char
  | .star => '*'
  | .question => '?'
  | .openBrace => '\x7b'
  | .closeBrace => '\x7d'
  | .comma => ','
  | .plain c => c
  | .escaped c => c
  | .bracket _ => ']'

/-- A class whose closing bracket has not come yet. -/
structure OpenClass where
  negated : Bool
  ranges : List (Char × Char)
  /-- Whether a dash waits for the end of its range. -/
  dash : Bool

namespace OpenClass

inductive Progress where
  | more (state : OpenClass)
  | closed (bytes : ByteClass)
  | invalid

/-- The class as it stands, with a dash that ends no range taken for itself. -/
def close (state : OpenClass) : ByteClass :=
  { negated := state.negated,
    ranges := (if state.dash then ('-', '-') :: state.ranges else state.ranges).reverse }

/-- Adds a character: as the end of the newest range after a dash, else as a range of its own. -/
def add (state : OpenClass) (c : Char) : Progress :=
  match state.dash, state.ranges with
  | true, (first, _) :: rest =>
      if c < first then .invalid else .more ⟨state.negated, (first, c) :: rest, false⟩
  | _, ranges => .more ⟨state.negated, (c, c) :: ranges, false⟩

/-- A closing bracket or a dash stands for itself where it comes first. -/
def step (state : OpenClass) (c : Char) : Progress :=
  if state.ranges.isEmpty then state.add c
  else if c = ']' then .closed state.close
  else if c = '-' ∧ state.dash = false then .more { state with dash := true }
  else state.add c

end OpenClass

inductive Position where
  | outside
  | afterBackslash
  | afterBracket
  | inClass (state : OpenClass)

/-- Cuts a pattern into symbols; a class without end, a range that runs backwards and a backslash
at the very end have none. -/
def symbols? : Position → List Char → Option (List Symbol)
  | .outside, [] => some []
  | .outside, c :: rest =>
      match c with
      | '?' => (symbols? .outside rest).map (.question :: ·)
      | '*' => (symbols? .outside rest).map (.star :: ·)
      | ',' => (symbols? .outside rest).map (.comma :: ·)
      | '\x7b' => (symbols? .outside rest).map (.openBrace :: ·)
      | '\x7d' => (symbols? .outside rest).map (.closeBrace :: ·)
      | '\\' => symbols? .afterBackslash rest
      | '[' => symbols? .afterBracket rest
      | c => (symbols? .outside rest).map (.plain c :: ·)
  | .afterBackslash, c :: rest => (symbols? .outside rest).map (.escaped c :: ·)
  | .afterBracket, c :: rest =>
      if c = '!' ∨ c = '^' then symbols? (.inClass ⟨true, [], false⟩) rest
      else symbols? (.inClass ⟨false, [(c, c)], false⟩) rest
  | .inClass state, c :: rest =>
      match state.step c with
      | .more state => symbols? (.inClass state) rest
      | .closed bytes => (symbols? .outside rest).map (.bracket bytes :: ·)
      | .invalid => none
  | _, [] => none

inductive Element where
  | literal (c : Char)
  | anyByte
  | anyBytes
  /-- Nothing, a slash, or any bytes that end in a slash. -/
  | leadingPath
  /-- A slash and any bytes. -/
  | trailingPath
  /-- A slash, or any bytes between two slashes. -/
  | innerPath
  | bytes (bytes : ByteClass)
  | oneOf (branches : List (List Element))

/-- A brace that is open, or the whole pattern: its finished branches and the one being read,
both newest first. -/
structure Frame where
  branches : List (List Element)
  elements : List Element

namespace Frame

def empty : Frame := ⟨[], []⟩

def push (frame : Frame) (element : Element) : Frame :=
  { frame with elements := element :: frame.elements }

/-- Puts a run of directories where the element before it stood, unless that was such a run at
the front or at the end already. -/
def replaceLast (frame : Frame) (element : Element) : Frame :=
  match frame.elements with
  | .leadingPath :: _ => frame
  | .trailingPath :: _ => frame
  | elements => { frame with elements := element :: elements.tail }

def close (frame : Frame) : List (List Element) :=
  (frame.elements.reverse :: frame.branches).reverse

end Frame

/-- Whether two stars stand where a path component starts: behind a slash, or, inside braces,
behind an escaped brace or comma. -/
def startsComponent (previous : Option Symbol) (inBraces : Bool) : Bool :=
  match previous.map Symbol.lastChar with
  | some c => c == '/' || (inBraces && (c == ',' || c == '\x7b'))
  | none => false

/-- Puts the symbols together. `outer` holds the frames around `frame`, innermost first. A brace
that is never closed, or closed and never opened, makes the pattern invalid. -/
def assemble? (previous : Option Symbol) (frame : Frame) (outer : List Frame) :
    List Symbol → Option (List Element)
  | [] => if outer.isEmpty then some frame.elements.reverse else none
  | .star :: .star :: .plain '/' :: rest =>
      let slash := some (Symbol.plain '/')
      if frame.elements.isEmpty then assemble? slash (frame.push .leadingPath) outer rest
      else if startsComponent previous (!outer.isEmpty) then
        assemble? slash (frame.replaceLast .innerPath) outer rest
      else
        assemble? slash (((frame.push .anyBytes).push .anyBytes).push (.literal '/')) outer rest
  | .star :: .star :: rest =>
      let atEnd := match rest with
        | [] => true
        | .comma :: _ | .closeBrace :: _ => !outer.isEmpty && !frame.elements.isEmpty
        | _ => false
      let twoStars := (frame.push .anyBytes).push .anyBytes
      let frame :=
        if !atEnd then twoStars
        else if frame.elements.isEmpty then frame.push .leadingPath
        else if startsComponent previous (!outer.isEmpty) then frame.replaceLast .trailingPath
        else twoStars
      assemble? (some .star) frame outer rest
  | symbol :: rest =>
      match symbol, outer with
      | .star, _ => assemble? (some symbol) (frame.push .anyBytes) outer rest
      | .question, _ => assemble? (some symbol) (frame.push .anyByte) outer rest
      | .plain c, _ => assemble? (some symbol) (frame.push (.literal c)) outer rest
      | .escaped c, _ => assemble? (some symbol) (frame.push (.literal c)) outer rest
      | .bracket bytes, _ => assemble? (some symbol) (frame.push (.bytes bytes)) outer rest
      | .comma, [] => assemble? (some symbol) (frame.push (.literal ',')) [] rest
      | .comma, _ :: _ =>
          assemble? (some symbol) ⟨frame.elements.reverse :: frame.branches, []⟩ outer rest
      | .openBrace, _ => assemble? (some symbol) .empty (frame :: outer) rest
      | .closeBrace, [] => none
      | .closeBrace, parent :: outer =>
          assemble? (some symbol) (parent.push (.oneOf frame.close)) outer rest

def elements? (pattern : List Char) : Option (List Element) :=
  (symbols? .outside pattern).bind (assemble? none .empty [])

end CiPipeline.Glob
