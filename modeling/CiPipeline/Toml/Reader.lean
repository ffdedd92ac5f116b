import CiPipeline.Toml.Quoted
import CiPipeline.Toml.Scalar
import CiPipeline.Toml.Value

/-!
# TOML documents

The reader of TOML 1.1: lines that open tables, lines that give keys values, and values that may
go over several lines inside brackets and braces.
-/

namespace CiPipeline.Toml

/-- Reads something at the beginning of a text and gives what is behind it. -/
abbrev Parser (α : Type) := List Char → Option (α × List Char)

/-- How deeply arrays and tables in braces may be nested, and how many parts a key may have. -/
def maxDepth : Nat := 80

/-- The text behind a comment, which reaches to the end of its line. -/
def afterComment : List Char → List Char
  | '#' :: rest => rest.dropWhile isTextChar
  | text => text

/-- The text behind blanks, comments and line breaks, from the outside or inside of a comment. -/
def afterGaps? (inComment : Bool) : List Char → Option (List Char)
  | [] => if inComment then none else some []
  | '\n' :: rest => afterGaps? false rest
  | '\r' :: '\n' :: rest => afterGaps? false rest
  | c :: rest =>
      if inComment then
        if isTextChar c then afterGaps? true rest else none
      else if isBlank c then afterGaps? false rest
      else if c = '#' then afterGaps? true rest
      else some (c :: rest)

/-- A character of a key without quotes. -/
def isKeyChar (c : Char) : Bool := c.isAlphanum || c == '_' || c == '-'

def simpleKey? : Parser String
  | '"' :: rest => (basic? rest).map fun (key, rest) => (String.ofList key, rest)
  | '\'' :: rest => (literal? rest).map fun (key, rest) => (String.ofList key, rest)
  | text =>
      match text.takeWhile isKeyChar with
      | [] => none
      | key => some (String.ofList key, text.dropWhile isKeyChar)

/-- A key of at most so many parts, joined by dots, and the text behind it and behind blanks. -/
def parts? : Nat → Parser (List String)
  | 0, _ => none
  | most + 1, text => do
      let (part, rest) ← simpleKey? (text.dropWhile isBlank)
      match rest.dropWhile isBlank with
      | '.' :: rest => do
          let (parts, rest) ← parts? most rest
          pure (part :: parts, rest)
      | rest => pure ([part], rest)

def key? : Parser (List String) := parts? maxDepth

/-- Items up to a closing character, with commas between them and, if need be, behind the last. -/
def items? (close : Char) (item : Parser α) : Nat → Parser (List α)
  | 0, _ => none
  | fuel + 1, text => do
      let text ← afterGaps? false text
      match text with
      | [] => none
      | c :: rest =>
          if c = close then pure ([], rest)
          else do
            let (value, rest) ← item text
            let rest ← afterGaps? false rest
            match rest with
            | ',' :: rest => do
                let (values, rest) ← items? close item fuel rest
                pure (value :: values, rest)
            | c :: rest => if c = close then pure ([value], rest) else none
            | [] => none

/-- A character of a value without quotes, which may be any that has no part in the notation. -/
def isPlainChar (c : Char) : Bool := !"=,[]\x7b\x7d# \t\r\n".toList.contains c

/-- Whether a value without quotes goes on behind blanks. A quote would start a string there. -/
def goesOn (text : List Char) : Bool :=
  (text.dropWhile isBlank).head?.any fun c => isPlainChar c && c != '"' && c != '\''

/-- The text of a value without quotes. Blanks belong to it where it goes on behind them, as they do
between a date and a time. -/
def plainText : List Char → List Char × List Char
  | [] => ([], [])
  | c :: rest =>
      if isPlainChar c || (isBlank c && goesOn rest) then
        let (text, rest) := plainText rest
        (c :: text, rest)
      else ([], c :: rest)

/-- The value that a text without quotes stands for. -/
def plainValue? (text : List Char) : Option Value :=
  if text = "true".toList then some (.boolean true)
  else if text = "false".toList then some (.boolean false)
  else if isInteger text then some (.integer (String.ofList text))
  else if isFloat text then some (.float (String.ofList text))
  else if isDateTime text then some (.dateTime (String.ofList text))
  else none

def scalar? : Parser Value := fun text =>
  if text.head? = some '"' ∨ text.head? = some '\'' then
    (quoted? text).map fun (content, rest) => (.string (String.ofList content), rest)
  else
    let (plain, rest) := plainText text
    (plainValue? plain).map (·, rest)

/-- A key, an equals sign and a value, where `skip` gives what is behind a gap around the sign. -/
def assignment? (skip : List Char → Option (List Char)) (value : Parser Value) :
    Parser (List String × Value) := fun text => do
  let (key, rest) ← key? text
  match ← skip rest with
  | '=' :: rest => do
      let (value, rest) ← value (← skip rest)
      pure ((key, value), rest)
  | _ => none

/-- A value with arrays and tables nested at most `depth` deep. In braces, gaps go over lines. -/
def value? : Nat → Parser Value
  | 0, text => scalar? text
  | depth + 1, text =>
      match text with
      | '[' :: rest => do
          let (items, rest) ← items? ']' (value? depth) rest.length rest
          pure (.array items, rest)
      | '\x7b' :: rest => do
          let entry := assignment? (afterGaps? false) (value? depth)
          let (assignments, rest) ← items? '\x7d' entry rest.length rest
          let entries ← assignments.foldlM
            (fun entries (key, value) => Entries.assign entries value key) []
          pure (.table .braces entries, rest)
      | _ => scalar? text

/-- The text of the next line, if nothing but blanks and a comment is left of this one. -/
def nextLine? (text : List Char) : Option (List Char) :=
  let rest := afterComment (text.dropWhile isBlank)
  if rest.isEmpty then some [] else afterNewline? rest

/-- A header: the key of a table in single brackets, or of one of several in double ones. -/
def header? : Parser (Bool × List String)
  | '[' :: '[' :: rest => do
      let (key, rest) ← key? rest
      match rest with
      | ']' :: ']' :: rest => pure ((true, key), rest)
      | _ => none
  | '[' :: rest => do
      let (key, rest) ← key? rest
      match rest with
      | ']' :: rest => pure ((false, key), rest)
      | _ => none
  | _ => none

/-- Adds the lines of a text to a document. Keys go into the table of the newest header, the path
of which is `table`. -/
def lines? : Nat → Entries → List String → List Char → Option Entries
  | 0, _, _, _ => none
  | fuel + 1, document, table, text =>
      match text.dropWhile isBlank with
      | [] => some document
      | text =>
          match nextLine? text with
          | some rest => lines? fuel document table rest
          | none =>
              if text.head? = some '[' then do
                let ((several, key), rest) ← header? text
                let last ← key.getLast?
                let change (entries : Entries) : Option Entries :=
                  if several then entries.openItem last else entries.openTable last
                let document ← document.changeAt change key.dropLast
                lines? fuel document key (← nextLine? rest)
              else do
                let ((key, value), rest) ←
                  assignment? (fun text => some (text.dropWhile isBlank)) (value? maxDepth) text
                let document ← document.changeAt (fun entries => entries.assign value key) table
                lines? fuel document table (← nextLine? rest)

def parse? (text : String) : Option Entries :=
  let text := text.toList
  let text := if text.head? = some '\ufeff' then text.tail else text
  lines? (text.length + 1) [] [] text

end CiPipeline.Toml
