import CiPipeline.Json.Basic
import CiPipeline.Sink

/-!
# Writing values part by part

A value is put out as its parts are reached: brackets, names and separators one by one, and a
string character by character. Whatever comes after a failure is not tried.
-/

namespace CiPipeline.Json

open Output

def streamString (text : String) : Output Unit := do
  put ['"']
  text.toList.forM fun c => put (spellChar c)
  put ['"']

def Token.stream : Token → Output Unit
  | .string (some text) => streamString text
  | token => put token.spell

mutual

def stream : Json → Output Unit
  | .null => (Token.word .null).stream
  | .bool true => (Token.word .true).stream
  | .bool false => (Token.word .false).stream
  | .number text => (Token.number text).stream
  | .string content => (Token.string content).stream
  | .array items => do
      Token.openArray.stream
      streamItems items
  | .object members => do
      Token.openObject.stream
      streamMembers members

/-- Puts out the items of an array and its closing bracket. -/
def streamItems : List Json → Output Unit
  | [] => Token.closeArray.stream
  | item :: rest => do
      item.stream
      streamMoreItems rest

def streamMoreItems : List Json → Output Unit
  | [] => Token.closeArray.stream
  | item :: rest => do
      Token.comma.stream
      item.stream
      streamMoreItems rest

/-- Puts out the members of an object and its closing brace. -/
def streamMembers : List (Content × Json) → Output Unit
  | [] => Token.closeObject.stream
  | (name, value) :: rest => do
      (Token.string name).stream
      Token.colon.stream
      value.stream
      streamMoreMembers rest

def streamMoreMembers : List (Content × Json) → Output Unit
  | [] => Token.closeObject.stream
  | (name, value) :: rest => do
      Token.comma.stream
      (Token.string name).stream
      Token.colon.stream
      value.stream
      streamMoreMembers rest

end

end CiPipeline.Json
