/-!
# Tables of TOML

The values of a TOML document and the rules by which tables are filled: no key is given twice, and
how a table came about decides whether more may be added to it.
-/

namespace CiPipeline.Toml

/-- How a table came about: in braces, under its own header, as a part of the header of another
table, or by keys with dots. -/
inductive Origin where
  | braces
  | header
  | implied
  | dotted
deriving DecidableEq

inductive Value where
  | string (text : String)
  | integer (text : String)
  | float (text : String)
  | boolean (value : Bool)
  | dateTime (text : String)
  | array (items : List Value)
  | table (origin : Origin) (entries : List (String × Value))
  /-- The tables under headers in double brackets, newest first. -/
  | tables (items : List (List (String × Value)))

abbrev Entries := List (String × Value)

namespace Entries

/-- Replaces the value of a key, or adds it at the end. -/
def put (entries : Entries) (key : String) (value : Value) : Entries :=
  if entries.any (·.1 == key) then
    entries.map fun entry => if entry.1 = key then (key, value) else entry
  else entries ++ [(key, value)]

/-- Gives a key, the parts of which are joined by dots, a value. Only tables made by such keys are
gone into. -/
def assign (entries : Entries) (value : Value) : List String → Option Entries
  | [] => none
  | [key] => if (entries.lookup key).isSome then none else some (entries ++ [(key, value)])
  | key :: rest =>
      match entries.lookup key with
      | none => (assign [] value rest).map fun inner => entries.put key (.table .dotted inner)
      | some (.table .dotted inner) =>
          (assign inner value rest).map fun inner => entries.put key (.table .dotted inner)
      | some _ => none

/-- Changes the table to which a header leads. Tables on the way are made where they are missing,
and of several tables under one header the newest is gone into. -/
def changeAt (entries : Entries) (change : Entries → Option Entries) : List String → Option Entries
  | [] => change entries
  | key :: rest =>
      match entries.lookup key with
      | none => (changeAt [] change rest).map fun inner => entries.put key (.table .implied inner)
      | some (.table .braces _) => none
      | some (.table origin inner) =>
          (changeAt inner change rest).map fun inner => entries.put key (.table origin inner)
      | some (.tables (newest :: older)) =>
          (changeAt newest change rest).map fun newest =>
            entries.put key (.tables (newest :: older))
      | some _ => none

/-- Opens the table of a header: a new one, or one that so far was only implied. -/
def openTable (entries : Entries) (key : String) : Option Entries :=
  match entries.lookup key with
  | none => some (entries.put key (.table .header []))
  | some (.table .implied inner) => some (entries.put key (.table .header inner))
  | some _ => none

def openItem (entries : Entries) (key : String) : Option Entries :=
  match entries.lookup key with
  | none => some (entries.put key (.tables [[]]))
  | some (.tables items) => some (entries.put key (.tables ([] :: items)))
  | some _ => none

end Entries

end CiPipeline.Toml
