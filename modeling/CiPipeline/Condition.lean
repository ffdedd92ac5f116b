import CiPipeline.Text.Blank
import CiPipeline.Glob.Matching

/-!
# Conditions

A condition is the text of an expression that the engine reads when a pipeline runs. A tree of
constructors spells the canonical texts; every operand of an operator stands in parentheses, so no
text hangs on precedence. A single comparison can also be evaluated here and now against a run.
-/

namespace CiPipeline

/-- What is known about a run: its branch, its tag, the event that started it and whether it runs
on a build server. -/
structure RunContext where
  branch : String
  tag : String
  event : String
  ci : Bool
deriving DecidableEq, Inhabited

structure Condition where
  text : String
deriving DecidableEq, Inhabited

inductive Verdict where
  | run
  | skip
  | unknown
deriving DecidableEq

namespace Condition

inductive Field where
  | branch
  | tag
  | event
  | ci
deriving DecidableEq

namespace Field

def all : List Field := [.branch, .tag, .event, .ci]

def name : Field → String
  | .branch => "branch"
  | .tag => "tag"
  | .event => "event"
  | .ci => "ci"

def named? (text : String) : Option Field := all.find? fun field => field.name == text

def value (context : RunContext) : Field → String
  | .branch => context.branch
  | .tag => context.tag
  | .event => context.event
  | .ci => if context.ci then "true" else "false"

@[simp] theorem named?_name (field : Field) : named? field.name = some field := by
  cases field <;> decide

end Field

/-- How a comparison relates the value of a field to a literal. -/
inductive Relation where
  | equal
  | different
  | glob
deriving DecidableEq

namespace Relation

def all : List Relation := [.equal, .different, .glob]

def symbol : Relation → String
  | .equal => "=="
  | .different => "!="
  | .glob => "matches"

def named? (text : String) : Option Relation := all.find? fun relation => relation.symbol == text

@[simp] theorem named?_symbol (relation : Relation) : named? relation.symbol = some relation := by
  cases relation <;> decide

/-- Whether a value stands in the relation to a literal; an invalid pattern leaves it open. -/
def holds? (relation : Relation) (value literal : List Char) : Option Bool :=
  match relation with
  | .equal => some (value == literal)
  | .different => some (value != literal)
  | .glob => Glob.test? literal value

end Relation

/-- A field, a relation and the text that the field is compared with. -/
structure Comparison where
  field : Field
  relation : Relation
  literal : List Char

/-- A quoted text, or the bare words `true` and `false` where the field is `ci`. -/
def literal? (field : Field) (text : List Char) : Option (List Char) :=
  match Text.unquote? '\'' text, Text.unquote? '"' text with
  | some inner, _ => some inner
  | none, some inner => some inner
  | none, none =>
      if field = .ci ∧ (text = "true".toList ∨ text = "false".toList) then some text else none

/-- Reads an expression that is nothing but one comparison: field, relation and literal, cut
apart at the first two blanks. -/
def comparison? (expression : List Char) : Option Comparison :=
  let text := Text.trim expression
  if Text.contains "||".toList text || Text.contains "&&".toList text
      || text.head? == some '!' || text.head? == some '(' then none
  else do
    let (field, rest) ← Text.cutAtBlank text
    let (relation, literal) ← Text.cutAtBlank rest
    let field ← Field.named? (String.ofList field)
    let relation ← Relation.named? (String.ofList relation)
    let literal ← literal? field (Text.trim literal)
    pure { field, relation, literal }

/-- Decides a condition that is a single comparison. -/
def evaluate (condition : Condition) (context : RunContext) : Verdict :=
  let outcome := do
    let comparison ← comparison? condition.text.toList
    comparison.relation.holds? (comparison.field.value context).toList comparison.literal
  match outcome with
  | some true => .run
  | some false => .skip
  | none => .unknown

/-- How a condition is built. -/
inductive Tree where
  | raw (text : String)
  /-- The branch is, or with a star in it matches, the pattern. -/
  | branch (pattern : String)
  /-- The tag is, or with a star in it matches, the pattern. -/
  | tag (pattern : String)
  | hasTag
  | event (kind : String)
  | inCi
  | negate (operand : Tree)
  | or (left right : Tree)
  | and (left right : Tree)
deriving DecidableEq

/-- A field compared with a pattern: by matching if the pattern holds a star, else by equality. -/
def fieldText (field : Field) (pattern : String) : String :=
  let relation := if pattern.toList.contains '*' then Relation.glob else Relation.equal
  field.name ++ " " ++ relation.symbol ++ " '" ++ pattern ++ "'"

def Tree.text : Tree → String
  | .raw text => text
  | .branch pattern => fieldText .branch pattern
  | .tag pattern => fieldText .tag pattern
  | .hasTag => "tag != ''"
  | .event kind => "event == '" ++ kind ++ "'"
  | .inCi => "ci == true"
  | .negate operand => "!(" ++ operand.text ++ ")"
  | .or left right => "(" ++ left.text ++ ") || (" ++ right.text ++ ")"
  | .and left right => "(" ++ left.text ++ ") && (" ++ right.text ++ ")"

def ofTree (tree : Tree) : Condition := ⟨tree.text⟩

end Condition

end CiPipeline
