import CiPipeline.Json.Stream
import CiPipeline.Proofs.Sink

/-!
# Values are put out as they are written

The parts of a value make up its compact text, so wherever a sink is full, in the midst of an escape
or deep in an object, it holds the beginning of that text.
-/

namespace CiPipeline.Json

open Output

theorem puts_streamString (text : String) : (streamString text).Puts (spellString text) :=
  (puts_put ['"']).bind ((puts_forM spellChar text.toList).bind (puts_put ['"']))

theorem Token.puts_stream (token : Token) : token.stream.Puts token.spell := by
  unfold Token.stream
  split
  · next text => exact puts_streamString text
  · exact puts_put _

/-- The text of some tokens, as a value is written with them. -/
def spelled (tokens : List Token) : List Char := tokens.flatMap Token.spell

theorem Token.puts_cons (token : Token) {rest : Output Unit} {tokens : List Token}
    (h : rest.Puts (spelled tokens)) :
    Puts (do token.stream; rest) (spelled (token :: tokens)) :=
  token.puts_stream.bind h

theorem puts_append {first rest : Output Unit} {tokens more : List Token}
    (hfirst : first.Puts (spelled tokens)) (hrest : rest.Puts (spelled more)) :
    Puts (do first; rest) (spelled (tokens ++ more)) := by
  rw [spelled, List.flatMap_append]
  exact hfirst.bind hrest

theorem Token.puts_singleton (token : Token) : token.stream.Puts (spelled [token]) := by
  rw [spelled, List.flatMap_singleton]
  exact token.puts_stream

mutual

theorem puts_stream : ∀ value : Json, value.stream.Puts (spelled value.toTokens)
  | .null => Token.puts_singleton (.word .null)
  | .bool true => Token.puts_singleton (.word .true)
  | .bool false => Token.puts_singleton (.word .false)
  | .number text => Token.puts_singleton (.number text)
  | .string content => Token.puts_singleton (.string content)
  | .array items => by
      rw [stream, toTokens]
      exact Token.puts_cons _ (puts_streamItems items)
  | .object members => by
      rw [stream, toTokens]
      exact Token.puts_cons _ (puts_streamMembers members)

theorem puts_streamItems : ∀ items : List Json,
    (streamItems items).Puts (spelled (itemTokens items))
  | [] => Token.puts_singleton .closeArray
  | item :: rest => by
      rw [streamItems, itemTokens]
      exact puts_append (puts_stream item) (puts_streamMoreItems rest)

theorem puts_streamMoreItems : ∀ items : List Json,
    (streamMoreItems items).Puts (spelled (moreItemTokens items))
  | [] => Token.puts_singleton .closeArray
  | item :: rest => by
      rw [streamMoreItems, moreItemTokens]
      exact Token.puts_cons _ (puts_append (puts_stream item) (puts_streamMoreItems rest))

theorem puts_streamMembers : ∀ members : List (Content × Json),
    (streamMembers members).Puts (spelled (memberTokens members))
  | [] => Token.puts_singleton .closeObject
  | (name, value) :: rest => by
      have hvalue := puts_append (puts_stream value) (puts_streamMoreMembers rest)
      rw [streamMembers, memberTokens]
      exact Token.puts_cons _ (Token.puts_cons _ hvalue)

theorem puts_streamMoreMembers : ∀ members : List (Content × Json),
    (streamMoreMembers members).Puts (spelled (moreMemberTokens members))
  | [] => Token.puts_singleton .closeObject
  | (name, value) :: rest => by
      have hvalue := puts_append (puts_stream value) (puts_streamMoreMembers rest)
      rw [streamMoreMembers, moreMemberTokens]
      exact Token.puts_cons _ (Token.puts_cons _ (Token.puts_cons _ hvalue))

end

/-- A value that is put out part by part leaves in every sink what its compact text leaves that is
written at once. -/
theorem puts_compact (value : Json) : value.stream.Puts value.compact.toList := by
  rw [compact, String.toList_ofList]
  exact puts_stream value

end CiPipeline.Json
