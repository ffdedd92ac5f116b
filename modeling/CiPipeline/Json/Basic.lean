import CiPipeline.Json.Token

/-!
# JSON values

The values of JSON texts with everything that a text says: the order of members, repeated names
and the spelling of numbers. A value is written as its tokens and read from them by a machine with
a stack, so that the depth of a text is bounded by memory alone.
-/

namespace CiPipeline

inductive Json where
  | null
  | bool (value : Bool)
  | number (text : List Char)
  | string (content : Json.Content)
  | array (items : List Json)
  | object (members : List (Json.Content × Json))

namespace Json

def ofString (text : String) : Json := .string (some text)

def ofNat (n : Nat) : Json := .number (Nat.toDigits 10 n)

/-! ## Writing -/

mutual

/-- The tokens of a value, without any white space. -/
def toTokens : Json → List Token
  | .null => [.word .null]
  | .bool true => [.word .true]
  | .bool false => [.word .false]
  | .number text => [.number text]
  | .string content => [.string content]
  | .array items => .openArray :: itemTokens items
  | .object members => .openObject :: memberTokens members

/-- The tokens of the items of an array, with its closing bracket. -/
def itemTokens : List Json → List Token
  | [] => [.closeArray]
  | item :: rest => item.toTokens ++ moreItemTokens rest

def moreItemTokens : List Json → List Token
  | [] => [.closeArray]
  | item :: rest => .comma :: (item.toTokens ++ moreItemTokens rest)

/-- The tokens of the members of an object, with its closing brace. -/
def memberTokens : List (Content × Json) → List Token
  | [] => [.closeObject]
  | (name, value) :: rest =>
      .string name :: .colon :: (value.toTokens ++ moreMemberTokens rest)

def moreMemberTokens : List (Content × Json) → List Token
  | [] => [.closeObject]
  | (name, value) :: rest =>
      .comma :: .string name :: .colon :: (value.toTokens ++ moreMemberTokens rest)

end

def compact (value : Json) : String := String.ofList (value.toTokens.flatMap Token.spell)

/-! ## Reading -/

/-- A value that is still open: what has been read of it, newest first. -/
inductive Open where
  | array (items : List Json)
  /-- An object with the name of the member that is being read. -/
  | object (members : List (Content × Json)) (name : Content)

/-- What the reader expects next, inside the open values around it, innermost first. -/
inductive Reader where
  | start (outer : List Open)
  | firstItem (outer : List Open)
  | firstName (outer : List Open)
  | nextName (members : List (Content × Json)) (outer : List Open)
  | colon (members : List (Content × Json)) (name : Content) (outer : List Open)
  | done (value : Json) (outer : List Open)

namespace Reader

def begin? (outer : List Open) : Token → Option Reader
  | .word .null => some (.done .null outer)
  | .word .true => some (.done (.bool true) outer)
  | .word .false => some (.done (.bool false) outer)
  | .number text => some (.done (.number text) outer)
  | .string content => some (.done (.string content) outer)
  | .openArray => some (.firstItem outer)
  | .openObject => some (.firstName outer)
  | _ => none

def step? : Reader → Token → Option Reader
  | .start outer, token => begin? outer token
  | .firstItem outer, .closeArray => some (.done (.array []) outer)
  | .firstItem outer, token => begin? (.array [] :: outer) token
  | .firstName outer, .closeObject => some (.done (.object []) outer)
  | .firstName outer, .string name => some (.colon [] name outer)
  | .nextName members outer, .string name => some (.colon members name outer)
  | .colon members name outer, .colon => some (.start (.object members name :: outer))
  | .done value (.array items :: outer), .comma => some (.start (.array (value :: items) :: outer))
  | .done value (.array items :: outer), .closeArray =>
      some (.done (.array (value :: items).reverse) outer)
  | .done value (.object members name :: outer), .comma =>
      some (.nextName ((name, value) :: members) outer)
  | .done value (.object members name :: outer), .closeObject =>
      some (.done (.object ((name, value) :: members).reverse) outer)
  | _, _ => none

def finish? : Reader → Option Json
  | .done value [] => some value
  | _ => none

def run? : Reader → List Token → Option Reader
  | reader, [] => some reader
  | reader, token :: rest => (reader.step? token).bind (run? · rest)

end Reader

def ofTokens? (tokens : List Token) : Option Json :=
  ((Reader.start []).run? tokens).bind Reader.finish?

def parse? (text : String) : Option Json := (tokens? text.toList).bind ofTokens?

end Json

end CiPipeline
