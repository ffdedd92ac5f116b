import CiPipeline.Text.HexDigit

/-!
# Tokens of JSON texts

How a JSON text falls into tokens, and how a token is spelled. The scanner is an automaton that
takes one character at a time; a number or a word ends where a character comes that cannot belong
to it, and that character is then taken as the start of the next token.
-/

namespace CiPipeline.Json

/-- The content of a string token. A text that names half of a surrogate pair without the other
half is well formed as a token, but is no sequence of characters; its content is `none`. -/
abbrev Content := Option String

inductive Word where
  | null
  | true
  | false
deriving DecidableEq

def Word.spell : Word → List Char
  | .null => "null".toList
  | .true => "true".toList
  | .false => "false".toList

inductive Token where
  | openArray
  | closeArray
  | openObject
  | closeObject
  | comma
  | colon
  | word (w : Word)
  | number (text : List Char)
  | string (content : Content)
deriving DecidableEq

/-! ## Numbers -/

def isDigit (c : Char) : Bool := c.isDigit

/-- The optional exponent with which a number ends. -/
def isExponent : List Char → Bool
  | [] => true
  | marker :: rest =>
      let digits := match rest with
        | '+' :: digits => digits
        | '-' :: digits => digits
        | digits => digits
      (marker == 'e' || marker == 'E') && !digits.isEmpty && digits.all isDigit

/-- The optional fraction and exponent behind the whole part of a number. -/
def isFraction : List Char → Bool
  | '.' :: digit :: rest => isDigit digit && isExponent (rest.dropWhile isDigit)
  | rest => isExponent rest

/-- The size of a number: a whole part without needless zeros, fraction and exponent. -/
def isSize : List Char → Bool
  | '0' :: rest => isFraction rest
  | digit :: rest => isDigit digit && isFraction (rest.dropWhile isDigit)
  | [] => false

/-- A number: an optional minus and a size. -/
def isNumber : List Char → Bool
  | '-' :: size => isSize size
  | size => isSize size

def isNumberChar (c : Char) : Bool :=
  isDigit c || c == '-' || c == '+' || c == '.' || c == 'e' || c == 'E'

/-! ## Strings -/

/-- A piece of a string: a character, or half of a surrogate pair. -/
inductive Piece where
  | char (c : Char)
  | surrogate (unit : Nat)
deriving DecidableEq

/-- The piece that a four-digit escape names. -/
def Piece.ofUnit (unit : Nat) : Piece :=
  if 0xD800 ≤ unit ∧ unit ≤ 0xDFFF then .surrogate unit else .char (Char.ofNat unit)

/-- The characters of a sequence of pieces, if every half has its other half. -/
def characters? : List Piece → Option (List Char)
  | [] => some []
  | .char c :: rest => (characters? rest).map (c :: ·)
  | .surrogate high :: .surrogate low :: rest =>
      if high < 0xDC00 ∧ 0xDC00 ≤ low then
        (characters? rest).map
          (Char.ofNat (0x10000 + (high - 0xD800) * 0x400 + (low - 0xDC00)) :: ·)
      else none
  | .surrogate _ :: _ => none

/-- The content of a string token, given its pieces newest first. -/
def contentOf (pieces : List Piece) : Content := (characters? pieces.reverse).map String.ofList

/-- The character that an escape of one letter names. -/
def escaped? (c : Char) : Option Char :=
  match c with
  | '"' => some '"'
  | '\\' => some '\\'
  | '/' => some '/'
  | 'b' => some '\x08'
  | 'f' => some '\x0c'
  | 'n' => some '\n'
  | 'r' => some '\r'
  | 't' => some '\t'
  | _ => none

/-! ## Scanning -/

/-- Where in a text the scanner stands. Pieces and characters are kept newest first. -/
inductive Mode where
  | between
  | inNumber (text : List Char)
  | inWord (text : List Char)
  | inString (pieces : List Piece)
  | inEscape (pieces : List Piece)
  /-- `missing + 1` digits of a four-digit escape are still to come. -/
  | inUnit (pieces : List Piece) (missing : Nat) (unit : Nat)

def isSpace (c : Char) : Bool := c == ' ' || c == '\n' || c == '\t' || c == '\r'

/-- The first character of a token, or a space. -/
def begin? (c : Char) : Option (List Token × Mode) :=
  if isSpace c then some ([], .between)
  else if isDigit c || c == '-' then some ([], .inNumber [c])
  else if c.isLower then some ([], .inWord [c])
  else
    match c with
    | '[' => some ([.openArray], .between)
    | ']' => some ([.closeArray], .between)
    | '\x7b' => some ([.openObject], .between)
    | '\x7d' => some ([.closeObject], .between)
    | ',' => some ([.comma], .between)
    | ':' => some ([.colon], .between)
    | '"' => some ([], .inString [])
    | _ => none

def numberToken? (text : List Char) : Option Token :=
  if isNumber text.reverse then some (.number text.reverse) else none

def wordToken? (text : List Char) : Option Token :=
  ([Word.null, .true, .false].find? fun word => word.spell == text.reverse).map .word

/-- Puts a finished token in front of what a character begins. -/
def followedBy (token? : Option Token) (c : Char) : Option (List Token × Mode) := do
  let token ← token?
  let (tokens, mode) ← begin? c
  pure (token :: tokens, mode)

/-- Takes one character: the tokens that it completes, and where the scanner stands then. -/
def step? (mode : Mode) (c : Char) : Option (List Token × Mode) :=
  match mode with
  | .between => begin? c
  | .inNumber text =>
      if isNumberChar c then some ([], .inNumber (c :: text))
      else followedBy (numberToken? text) c
  | .inWord text =>
      if c.isLower then some ([], .inWord (c :: text)) else followedBy (wordToken? text) c
  | .inString pieces =>
      if c = '"' then some ([.string (contentOf pieces)], .between)
      else if c = '\\' then some ([], .inEscape pieces)
      else if c.toNat < 0x20 then none
      else some ([], .inString (.char c :: pieces))
  | .inEscape pieces =>
      if c = 'u' then some ([], .inUnit pieces 3 0)
      else (escaped? c).map fun c => ([], .inString (.char c :: pieces))
  | .inUnit pieces missing unit =>
      (Text.hexValue? c).map fun digit =>
        let unit := unit * 16 + digit
        match missing with
        | 0 => ([], .inString (Piece.ofUnit unit :: pieces))
        | missing + 1 => ([], .inUnit pieces missing unit)

def finish? : Mode → Option (List Token)
  | .between => some []
  | .inNumber text => (numberToken? text).map ([·])
  | .inWord text => (wordToken? text).map ([·])
  | _ => none

/-- The tokens of a text from a given place of the scanner on. -/
def scanFrom? : Mode → List Char → Option (List Token)
  | mode, [] => finish? mode
  | mode, c :: rest =>
      match step? mode c with
      | none => none
      | some (tokens, mode) => (scanFrom? mode rest).map (tokens ++ ·)

def tokens? (text : List Char) : Option (List Token) := scanFrom? .between text

/-! ## Spelling -/

def hexDigit (n : Nat) : Char := Nat.digitChar n

/-- A character inside a string: quote, backslash and control characters are escaped, the latter
by a letter where there is one. -/
def spellChar (c : Char) : List Char :=
  match c with
  | '"' => ['\\', '"']
  | '\\' => ['\\', '\\']
  | '\x08' => ['\\', 'b']
  | '\x0c' => ['\\', 'f']
  | '\n' => ['\\', 'n']
  | '\r' => ['\\', 'r']
  | '\t' => ['\\', 't']
  | c =>
      if c.toNat < 0x20 then
        ['\\', 'u', '0', '0', hexDigit (c.toNat / 16), hexDigit (c.toNat % 16)]
      else [c]

def spellString (text : String) : List Char := '"' :: (text.toList.flatMap spellChar ++ ['"'])

/-- The text of a token; a string that is no sequence of characters is spelled as one half of a
surrogate pair. -/
def Token.spell : Token → List Char
  | .openArray => ['[']
  | .closeArray => [']']
  | .openObject => ['\x7b']
  | .closeObject => ['\x7d']
  | .comma => [',']
  | .colon => [':']
  | .word w => w.spell
  | .number text => text
  | .string (some text) => spellString text
  | .string none => ['"', '\\', 'u', 'd', '8', '0', '0', '"']

end CiPipeline.Json
