import CiPipeline.Json.Basic
import CiPipeline.Json.Number
import CiPipeline.OrderedMap
import CiPipeline.Vocabulary

/-!
# Records in JSON

How typed data is read from JSON values. A record is an object with known members; members that
are not known are passed over, and a known one may come only once. A record may also be given as
the array of its fields in their order, where fields at the end may be left out.
-/

namespace CiPipeline.Json

abbrev Decoder (α : Type) := Json → Option α

/-! ## Simple values -/

def string? : Decoder String
  | .string content => content
  | _ => none

def list? (item : Decoder α) : Decoder (List α)
  | .array items => items.mapM item
  | _ => none

/-- A map from names to values: of a name given twice, the first place and the last value. -/
def map? (value : Decoder α) : Decoder (OrderedMap α)
  | .object members => do
      let entries ← members.mapM fun (name, member) => do
        pure (← name, ← value member)
      pure (.ofList entries)
  | _ => none

/-- A whole number in plain digits, without sign, fraction or exponent. -/
def natural? : Decoder Nat
  | .number text => if text.all isDigit then some (Nat.ofDigitChars 10 text 0) else none
  | _ => none

def uint32? (json : Json) : Option UInt32 := do
  let n ← natural? json
  if n < UInt32.size then some (UInt32.ofNat n) else none

def uint64? (json : Json) : Option UInt64 := do
  let n ← natural? json
  if n < UInt64.size then some (UInt64.ofNat n) else none

/-- A member of a vocabulary: its word, or an object with nothing but its word and `null`. -/
def member? [Vocabulary α] : Decoder α
  | .string content => content.bind Vocabulary.find?
  | .object [(name, .null)] => name.bind Vocabulary.find?
  | _ => none

/-! ## Records -/

/-- The known fields of a record that are given, with their values. -/
abbrev Record := List (String × Json)

/-- The fields of an object or array of which the given names are known. -/
def record? (names : List String) : Json → Option Record
  | .array items => if items.length ≤ names.length then some (names.zip items) else none
  | .object members => do
      let named ← members.mapM fun (name, value) => name.map fun name => (name, value)
      let known := named.filter fun field => names.contains field.1
      if (known.map Prod.fst).Nodup then some known else none
  | _ => none

def given (decode : Decoder α) (value? : Option Json) : Option α := value?.bind decode

def orDefault (default : α) (decode : Decoder α) : Option Json → Option α
  | none => some default
  | some value => decode value

def nullable (decode : Decoder α) : Option Json → Option (Option α)
  | none => some none
  | some .null => some none
  | some value => (decode value).map some

namespace Record

variable {α : Type}

/-- A field that must be given. -/
def required (record : Record) (name : String) (decode : Decoder α) : Option α :=
  given decode (record.lookup name)

/-- A field that has a default. -/
def withDefault (record : Record) (name : String) (default : α) (decode : Decoder α) : Option α :=
  orDefault default decode (record.lookup name)

/-- A field that may be missing or `null`. -/
def optional (record : Record) (name : String) (decode : Decoder α) : Option (Option α) :=
  nullable decode (record.lookup name)

end Record

/-! ## Entries that are told apart by a tag -/

/-- How many arrays and objects stand inside each other in a value. -/
def depth : Json → Nat
  | .array items => depths items + 1
  | .object members => memberDepths members + 1
  | _ => 0
where
  depths : List Json → Nat
    | [] => 0
    | item :: rest => max item.depth (depths rest)
  memberDepths : List (Content × Json) → Nat
    | [] => 0
    | (_, value) :: rest => max value.depth (memberDepths rest)

/-- Whether a value, wherever it stands in a tagged entry, is made of strings of characters and of
numbers in the range of doubles. -/
def isSound : Json → Bool
  | .number text => isFiniteNumber text
  | .string content => content.isSome
  | .array items => allSound items
  | .object members => allSoundMembers members
  | _ => true
where
  allSound : List Json → Bool
    | [] => true
    | item :: rest => item.isSound && allSound rest
  allSoundMembers : List (Content × Json) → Bool
    | [] => true
    | (name, value) :: rest => name.isSome && value.isSound && allSoundMembers rest

/-- The tag of an entry and the entry without it. In an object the tag may be any member and comes
once; in an array it is the first item. -/
def tagged? (tag : String) : Json → Option (String × Json)
  | .object members =>
      match members.filter (·.1 == some tag) with
      | [(_, .string (some name))] => some (name, .object (members.filter (·.1 != some tag)))
      | _ => none
  | .array (.string (some name) :: rest) => some (name, .array rest)
  | _ => none

/-! ## Writing records -/

/-- A member of a record as it is written: its name, and its value unless it is left out. -/
abbrev Member := String × Option Json

def always (name : String) (value : Json) : Member := (name, some value)

def ifSome (name : String) (encode : α → Json) (value : Option α) : Member :=
  (name, value.map encode)

def ofList (encode : α → Json) (items : List α) : Json := .array (items.map encode)

def ifItems (name : String) (encode : α → Json) (items : List α) : Member :=
  (name, if items.isEmpty then none else some (ofList encode items))

def ofMap (encode : α → Json) (map : OrderedMap α) : Json :=
  .object (map.toList.map fun (name, value) => (some name, encode value))

def ifEntries (name : String) (encode : α → Json) (map : OrderedMap α) : Member :=
  (name, if map.isEmpty then none else some (ofMap encode map))

/-- A member that is written if the number is not zero. -/
def ifPositive (name : String) (n : Nat) : Member := (name, if n = 0 then none else some (ofNat n))

def written (members : List Member) : Record :=
  members.filterMap fun (name, value?) => value?.map fun value => (name, value)

def ofMembers (members : List Member) : Json :=
  .object ((written members).map fun (name, value) => (some name, value))

def ofMember [Vocabulary α] (member : α) : Json := ofString (Vocabulary.word member)

end CiPipeline.Json
