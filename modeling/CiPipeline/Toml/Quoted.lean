import CiPipeline.Text.HexDigit

/-!
# Quoted texts of TOML

Basic strings with escapes and literal strings without, each on one line or on several. Every
function gives the content up to the closing quotes and the text behind them.
-/

namespace CiPipeline.Toml

/-- A character that may stand in a comment or a string: a tab, or one that is not a control
character. -/
def isTextChar (c : Char) : Bool := c == '\t' || (0x20 ≤ c.toNat && c.toNat != 0x7F)

def isBlank (c : Char) : Bool := c == ' ' || c == '\t'

/-- The text behind a line break. -/
def afterNewline? : List Char → Option (List Char)
  | '\n' :: rest => some rest
  | '\r' :: '\n' :: rest => some rest
  | _ => none

def charOfHex? (digits : List Char) : Option Char := do
  let values ← digits.mapM Text.hexValue?
  let n := values.foldl (fun n digit => n * 16 + digit) 0
  if n.isValidChar then some (Char.ofNat n) else none

def charOfEscape? : Char → Option Char
  | 'b' => some '\x08'
  | 't' => some '\t'
  | 'n' => some '\n'
  | 'f' => some '\x0c'
  | 'r' => some '\r'
  | 'e' => some '\x1b'
  | '"' => some '"'
  | '\\' => some '\\'
  | _ => none

def prepend (c : Option Char) (result : Option (List Char × List Char)) :
    Option (List Char × List Char) := do
  let c ← c
  let (content, rest) ← result
  pure (c :: content, rest)

/-- A basic string behind its opening quote. -/
def basic? : List Char → Option (List Char × List Char)
  | '"' :: rest => some ([], rest)
  | '\\' :: 'x' :: a :: b :: rest => prepend (charOfHex? [a, b]) (basic? rest)
  | '\\' :: 'u' :: a :: b :: c :: d :: rest => prepend (charOfHex? [a, b, c, d]) (basic? rest)
  | '\\' :: 'U' :: a :: b :: c :: d :: e :: f :: g :: h :: rest =>
      prepend (charOfHex? [a, b, c, d, e, f, g, h]) (basic? rest)
  | '\\' :: c :: rest => prepend (charOfEscape? c) (basic? rest)
  | c :: rest => if isTextChar c && c != '\\' then prepend c (basic? rest) else none
  | [] => none

/-- A literal string behind its opening quote. -/
def literal? : List Char → Option (List Char × List Char)
  | '\'' :: rest => some ([], rest)
  | c :: rest => if isTextChar c then prepend c (literal? rest) else none
  | [] => none

/-- Whether a text starts with a line break, blanks in front of it left aside. -/
def breaksLine (text : List Char) : Bool := (afterNewline? (text.dropWhile isBlank)).isSome

/-- A character that a backslash at the end of a line takes away with the line break. -/
def isGap (c : Char) (rest : List Char) : Bool :=
  isBlank c || c == '\n' || (c == '\r' && rest.head? == some '\n')

/-- A basic string on several lines behind its opening quotes. Up to two quotes may stand in front
of the closing ones. With `skipping`, blanks and line breaks are passed over first. -/
def basicLines? (skipping : Bool) : List Char → Option (List Char × List Char)
  | [] => none
  | c :: rest =>
      if skipping && isGap c rest then basicLines? true rest
      else
        match c, rest with
        | '"', '"' :: '"' :: '"' :: '"' :: rest => some (['"', '"'], rest)
        | '"', '"' :: '"' :: '"' :: rest => some (['"'], rest)
        | '"', '"' :: '"' :: rest => some ([], rest)
        | '"', rest => prepend '"' (basicLines? false rest)
        | '\\', 'x' :: a :: b :: rest => prepend (charOfHex? [a, b]) (basicLines? false rest)
        | '\\', 'u' :: a :: b :: c :: d :: rest =>
            prepend (charOfHex? [a, b, c, d]) (basicLines? false rest)
        | '\\', 'U' :: a :: b :: c :: d :: e :: f :: g :: h :: rest =>
            prepend (charOfHex? [a, b, c, d, e, f, g, h]) (basicLines? false rest)
        | '\\', c :: rest =>
            if breaksLine (c :: rest) then basicLines? true (c :: rest)
            else prepend (charOfEscape? c) (basicLines? false rest)
        | '\n', rest => prepend '\n' (basicLines? false rest)
        | '\r', '\n' :: rest => prepend '\r' (prepend '\n' (basicLines? false rest))
        | c, rest => if isTextChar c && c != '\\' then prepend c (basicLines? false rest) else none

/-- A literal string on several lines behind its opening quotes. -/
def literalLines? : List Char → Option (List Char × List Char)
  | '\'' :: '\'' :: '\'' :: '\'' :: '\'' :: rest => some (['\'', '\''], rest)
  | '\'' :: '\'' :: '\'' :: '\'' :: rest => some (['\''], rest)
  | '\'' :: '\'' :: '\'' :: rest => some ([], rest)
  | '\n' :: rest => prepend '\n' (literalLines? rest)
  | '\r' :: '\n' :: rest => prepend '\r' (prepend '\n' (literalLines? rest))
  | c :: rest => if isTextChar c then prepend c (literalLines? rest) else none
  | [] => none

/-- A line break right behind the opening quotes is no part of the content. -/
def dropNewline (text : List Char) : List Char := (afterNewline? text).getD text

def quoted? : List Char → Option (List Char × List Char)
  | '"' :: '"' :: '"' :: rest => basicLines? false (dropNewline rest)
  | '"' :: rest => basic? rest
  | '\'' :: '\'' :: '\'' :: rest => literalLines? (dropNewline rest)
  | '\'' :: rest => literal? rest
  | _ => none

end CiPipeline.Toml
