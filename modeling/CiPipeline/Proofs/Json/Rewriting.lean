import CiPipeline.Json.Record
import Mathlib.Data.List.Nodup
import Mathlib.Data.List.Perm.Basic

/-!
# Rewritings that a decoder does not see

The members of an object may stand in another order, a missing member may be given as `null`, and
members of other names may be put between the others, wherever the object is read as a record.
Main statement: a decoder that reads records by their fields gives the same for a value and for
what it was rewritten to, as soon as the decoders of the fields do.
-/

namespace CiPipeline.Json

variable {α : Type}

/-! ## Rewritings -/

/-- Which values a value can be rewritten to in one step. -/
abbrev Rewriting := Json → Json → Prop

/-- The value stays as it is. -/
def Fixed : Rewriting := fun _ _ => False

/-- The members of an object in another order. -/
inductive Permuted : Rewriting where
  | permute {members others : List (Content × Json)} (h : members.Perm others) :
      Permuted (.object members) (.object others)

/-- One item of an array is rewritten. -/
inductive InList (rewriting : Rewriting) : Rewriting where
  | item {before after : List Json} {item next : Json} (h : rewriting item next) :
      InList rewriting (.array (before ++ item :: after)) (.array (before ++ next :: after))

/-- The value of one member of an object is rewritten, whatever its name. -/
inductive InMap (rewriting : Rewriting) : Rewriting where
  | entry {before after : List (Content × Json)} {name : Content} {value next : Json}
      (h : rewriting value next) :
      InMap rewriting (.object (before ++ (name, value) :: after))
        (.object (before ++ (name, next) :: after))

/-- A field of a record: its name, whether it can be `null`, and how its value is rewritten. -/
structure Field where
  name : String
  isOptional : Bool
  rewriting : Rewriting

/-- One step in the object of a record with the given fields. -/
inductive InRecord (fields : List Field) : Rewriting where
  | permute {json next : Json} (h : Permuted json next) : InRecord fields json next
  /-- A missing member is given as `null`. -/
  | null {before after : List (Content × Json)} {field : Field} (hfield : field ∈ fields)
      (hoptional : field.isOptional = true)
      (hmissing : ∀ member ∈ before ++ after, member.1 ≠ some field.name) :
      InRecord fields (.object (before ++ after))
        (.object (before ++ (some field.name, .null) :: after))
  /-- A member is put in, with any text for its name that no field has, and with any value. -/
  | unknown {before after : List (Content × Json)} {name : String}
      (hname : name ∉ fields.map Field.name) (value : Json) :
      InRecord fields (.object (before ++ after)) (.object (before ++ (some name, value) :: after))
  /-- The value of a field is rewritten. -/
  | member {before after : List (Content × Json)} {field : Field} {value next : Json}
      (hfield : field ∈ fields) (h : field.rewriting value next) :
      InRecord fields (.object (before ++ (some field.name, value) :: after))
        (.object (before ++ (some field.name, next) :: after))

/-- The decoder does not see the rewriting, and `null`, which stands for a missing value, is not
rewritten and not written. -/
structure Insensitive (decode : Decoder α) (rewriting : Rewriting) : Prop where
  decode_eq {json next : Json} (h : rewriting json next) : decode json = decode next
  ne_null {json next : Json} (h : rewriting json next) : json ≠ .null ∧ next ≠ .null

theorem insensitive_fixed {decode : Decoder α} : Insensitive decode Fixed :=
  ⟨fun h => h.elim, fun h => h.elim⟩

theorem mapM_replace {β γ : Type} {decode : β → Option γ} {item next : β}
    (h : decode item = decode next) (before after : List β) :
    (before ++ item :: after).mapM decode = (before ++ next :: after).mapM decode := by
  rw [List.mapM_append, List.mapM_append, List.mapM_cons, List.mapM_cons, h]

theorem insensitive_list {decode : Decoder α} {rewriting : Rewriting}
    (h : Insensitive decode rewriting) : Insensitive (list? decode) (InList rewriting) where
  decode_eq hstep := by
    cases hstep with
    | item hitem => exact mapM_replace (h.decode_eq hitem) _ _
  ne_null hstep := by
    cases hstep with
    | item => exact ⟨Json.noConfusion, Json.noConfusion⟩

theorem insensitive_map {decode : Decoder α} {rewriting : Rewriting}
    (h : Insensitive decode rewriting) : Insensitive (map? decode) (InMap rewriting) where
  decode_eq hstep := by
    cases hstep with
    | entry hvalue =>
        rw [map?, map?, mapM_replace]
        dsimp only
        rw [h.decode_eq hvalue]
  ne_null hstep := by
    cases hstep with
    | entry => exact ⟨Json.noConfusion, Json.noConfusion⟩

/-! ## Known fields -/

/-- The members with known names, as fields of a record. -/
def knownFields (names : List String) (members : List (Content × Json)) : Record :=
  (members.filterMap fun (name, value) => name.map fun name => (name, value)).filter
    fun field => names.contains field.1

/-- An object whose names are texts, and the known ones among them distinct. -/
structure Legible (names : List String) (members : List (Content × Json)) : Prop where
  named : ∀ member ∈ members, member.1 ≠ none
  nodup : ((knownFields names members).map Prod.fst).Nodup

theorem mapM_names (members : List (Content × Json)) :
    members.mapM (fun ((name, value) : Content × Json) => name.map fun name => (name, value)) =
      if members.all (fun member => member.1.isSome) then
        some (members.filterMap fun (name, value) => name.map fun name => (name, value))
      else none := by
  induction members with
  | nil => rfl
  | cons member members ih =>
      obtain ⟨name, value⟩ := member
      rw [List.mapM_cons, ih]
      cases name with
      | none => rfl
      | some name =>
          simp only [List.all_cons, Option.isSome_some, Bool.true_and]
          split <;> rfl

theorem record?_object (names : List String) (members : List (Content × Json)) :
    Legible names members ∧ record? names (.object members) = some (knownFields names members) ∨
      ¬ Legible names members ∧ record? names (.object members) = none := by
  simp only [record?, mapM_names]
  by_cases hnamed : members.all (fun member => member.1.isSome) = true
  · have hnames : ∀ member ∈ members, member.1 ≠ none := by
      intro member hmember
      exact Option.isSome_iff_ne_none.mp (List.all_eq_true.mp hnamed member hmember)
    rw [if_pos hnamed]
    by_cases hnodup : ((knownFields names members).map Prod.fst).Nodup
    · exact .inl ⟨⟨hnames, hnodup⟩, if_pos hnodup⟩
    · exact .inr ⟨fun h => hnodup h.nodup, if_neg hnodup⟩
  · rw [if_neg hnamed]
    refine .inr ⟨fun h => hnamed (List.all_eq_true.mpr fun member hmember => ?_), rfl⟩
    exact Option.isSome_iff_ne_none.mpr (h.named member hmember)

theorem knownFields_append (names : List String) (members more : List (Content × Json)) :
    knownFields names (members ++ more) = knownFields names members ++ knownFields names more := by
  rw [knownFields, List.filterMap_append, List.filter_append]
  rfl

theorem knownFields_middle {names : List String} {name : String} (h : name ∈ names) (value : Json)
    (before after : List (Content × Json)) :
    knownFields names (before ++ (some name, value) :: after) =
      knownFields names before ++ (name, value) :: knownFields names after := by
  rw [knownFields_append]
  simp [knownFields, h]

theorem knownFields_middle_of_unknown {names : List String} {name : String} (h : name ∉ names)
    (value : Json) (before after : List (Content × Json)) :
    knownFields names (before ++ (some name, value) :: after) =
      knownFields names (before ++ after) := by
  rw [knownFields_append, knownFields_append]
  simp [knownFields, h]

theorem perm_knownFields (names : List String) {members others : List (Content × Json)}
    (h : members.Perm others) : (knownFields names members).Perm (knownFields names others) :=
  (h.filterMap _).filter _

theorem member_of_knownFields {names : List String} {members : List (Content × Json)}
    {field : String × Json} (h : field ∈ knownFields names members) :
    (some field.1, field.2) ∈ members := by
  obtain ⟨⟨name, value⟩, hmember, hnamed⟩ := List.mem_filterMap.mp (List.mem_filter.mp h).1
  obtain ⟨name, rfl, rfl⟩ := Option.map_eq_some_iff.mp hnamed
  exact hmember

theorem Legible.perm {names : List String} {members others : List (Content × Json)}
    (h : Legible names members) (hperm : members.Perm others) : Legible names others where
  named member hmember := h.named member (hperm.mem_iff.mpr hmember)
  nodup := ((perm_knownFields names hperm).map Prod.fst).nodup_iff.mp h.nodup

theorem named_middle {name : String} {value : Json} {before after : List (Content × Json)} :
    (∀ member ∈ before ++ (some name, value) :: after, member.1 ≠ none) ↔
      ∀ member ∈ before ++ after, member.1 ≠ none := by
  rw [List.forall_mem_append, List.forall_mem_cons, List.forall_mem_append]
  simp

/-- A known name must be new among the known ones. -/
theorem legible_middle {names : List String} {name : String} (h : name ∈ names) {value : Json}
    {before after : List (Content × Json)} :
    Legible names (before ++ (some name, value) :: after) ↔
      Legible names (before ++ after) ∧
        name ∉ (knownFields names (before ++ after)).map Prod.fst := by
  have hnodup : ((knownFields names (before ++ (some name, value) :: after)).map Prod.fst).Nodup ↔
      name ∉ (knownFields names (before ++ after)).map Prod.fst ∧
        ((knownFields names (before ++ after)).map Prod.fst).Nodup := by
    rw [knownFields_middle h, List.map_append, List.map_cons, List.nodup_middle, List.nodup_cons,
      ← List.map_append, ← knownFields_append]
  constructor
  · intro hlegible
    obtain ⟨hnew, hrest⟩ := hnodup.mp hlegible.nodup
    exact ⟨⟨named_middle.mp hlegible.named, hrest⟩, hnew⟩
  · intro ⟨hlegible, hnew⟩
    exact ⟨named_middle.mpr hlegible.named, hnodup.mpr ⟨hnew, hlegible.nodup⟩⟩

theorem legible_middle_of_unknown {names : List String} {name : String} (h : name ∉ names)
    {value : Json} {before after : List (Content × Json)} :
    Legible names (before ++ (some name, value) :: after) ↔ Legible names (before ++ after) := by
  have hknown := knownFields_middle_of_unknown h value before after
  constructor
  · intro hlegible
    exact ⟨named_middle.mp hlegible.named, hknown ▸ hlegible.nodup⟩
  · intro hlegible
    exact ⟨named_middle.mpr hlegible.named, hknown ▸ hlegible.nodup⟩

/-! ## Fields that agree -/

/-- The given value of a field and what it may become when the record is rewritten. -/
inductive Field.Agrees (field : Field) : Option Json → Option Json → Prop where
  | same (value? : Option Json) : Agrees field value? value?
  | rewritten {value next : Json} (h : field.rewriting value next) :
      Agrees field (some value) (some next)
  | null (h : field.isOptional = true) : Agrees field none (some .null)

/-- Every field agrees. -/
def Agree (fields : List Field) (record other : Record) : Prop :=
  ∀ field ∈ fields, field.Agrees (record.lookup field.name) (other.lookup field.name)

theorem lookup_perm {record other : Record} (h : record.Perm other)
    (hnodup : (record.map Prod.fst).Nodup) (name : String) :
    record.lookup name = other.lookup name := by
  induction h with
  | nil => rfl
  | cons field _ ih =>
      rw [List.map_cons, List.nodup_cons] at hnodup
      rw [List.lookup_cons, List.lookup_cons, ih hnodup.2]
  | swap first second record =>
      obtain ⟨one, value⟩ := first
      obtain ⟨two, next⟩ := second
      have hne : two ≠ one := by
        simp only [List.map_cons, List.nodup_cons, List.mem_cons, not_or] at hnodup
        exact hnodup.1.1
      by_cases htwo : name = two
      · subst htwo
        simp [List.lookup_cons, beq_false_of_ne hne]
      · simp [List.lookup_cons, beq_false_of_ne htwo]
  | trans hfirst _ ihfirst ihsecond =>
      rw [ihfirst hnodup, ihsecond ((hfirst.map Prod.fst).nodup_iff.mp hnodup)]

theorem lookup_middle_of_ne {name other : String} (h : other ≠ name) (value : Json)
    (before after : Record) :
    (before ++ (name, value) :: after).lookup other = (before ++ after).lookup other := by
  rw [List.lookup_append, List.lookup_append, List.lookup_cons, beq_false_of_ne h]

theorem lookup_eq_none_of_not_mem {name : String} {record : Record}
    (h : name ∉ record.map Prod.fst) : record.lookup name = none := by
  rw [List.lookup_eq_none_iff]
  intro field hfield
  rw [bne_iff_ne]
  intro hname
  exact h (hname ▸ List.mem_map_of_mem hfield)

theorem lookup_middle_self {name : String} {before : Record}
    (h : name ∉ before.map Prod.fst) (value : Json) (after : Record) :
    (before ++ (name, value) :: after).lookup name = some value := by
  rw [List.lookup_append, lookup_eq_none_of_not_mem h, List.lookup_cons_self, Option.none_or]

/-! ## Records -/

/-- Both objects are read as records, and these agree; or none is. -/
def ReadAlike (fields : List Field) (json next : Json) : Prop :=
  (record? (fields.map Field.name) json = none ∧ record? (fields.map Field.name) next = none) ∨
    ∃ record other, record? (fields.map Field.name) json = some record ∧
      record? (fields.map Field.name) next = some other ∧ Agree fields record other

section Records

variable {fields : List Field}

theorem readAlike_of_legible {members others : List (Content × Json)}
    (hlegible : Legible (fields.map Field.name) members ↔ Legible (fields.map Field.name) others)
    (hagree : Legible (fields.map Field.name) members →
      Agree fields (knownFields (fields.map Field.name) members)
        (knownFields (fields.map Field.name) others)) :
    ReadAlike fields (.object members) (.object others) := by
  rcases record?_object (fields.map Field.name) members with ⟨hfirst, hrecord⟩ | ⟨hfirst, hrecord⟩
  · obtain ⟨-, hother⟩ | ⟨hsecond, -⟩ := record?_object (fields.map Field.name) others
    · exact .inr ⟨_, _, hrecord, hother, hagree hfirst⟩
    · exact absurd (hlegible.mp hfirst) hsecond
  · obtain ⟨hsecond, -⟩ | ⟨-, hother⟩ := record?_object (fields.map Field.name) others
    · exact absurd (hlegible.mpr hsecond) hfirst
    · exact .inl ⟨hrecord, hother⟩

/-- One step leaves every field alike. -/
theorem InRecord.readAlike (hdistinct : (fields.map Field.name).Nodup) {json next : Json}
    (h : InRecord fields json next) : ReadAlike fields json next := by
  have heq {field other : Field} (hfield : field ∈ fields) (hother : other ∈ fields)
      (hname : other.name = field.name) : other = field :=
    List.inj_on_of_nodup_map hdistinct hother hfield hname
  cases h with
  | permute h =>
      obtain ⟨hperm⟩ := h
      refine readAlike_of_legible ⟨(·.perm hperm), (·.perm hperm.symm)⟩ fun hlegible field _ => ?_
      rw [lookup_perm (perm_knownFields _ hperm) hlegible.nodup]
      exact .same _
  | @null before after field hfield hoptional hmissing =>
      have hknown : field.name ∈ fields.map Field.name := List.mem_map_of_mem hfield
      have hnew : field.name ∉
          (knownFields (fields.map Field.name) (before ++ after)).map Prod.fst := by
        intro hmem
        obtain ⟨given, hgiven, hname⟩ := List.mem_map.mp hmem
        exact hmissing _ (member_of_knownFields hgiven) (congrArg some hname)
      refine readAlike_of_legible (by rw [legible_middle hknown, and_iff_left hnew]) ?_
      intro _ other hother
      rw [knownFields_middle hknown]
      by_cases hname : other.name = field.name
      · obtain rfl := heq hfield hother hname
        rw [lookup_eq_none_of_not_mem hnew]
        rw [knownFields_append, List.map_append, List.mem_append, not_or] at hnew
        rw [lookup_middle_self hnew.1]
        exact .null hoptional
      · rw [lookup_middle_of_ne hname, knownFields_append]
        exact .same _
  | @unknown before after name hname value =>
      refine readAlike_of_legible (legible_middle_of_unknown hname).symm fun _ other _ => ?_
      rw [knownFields_middle_of_unknown hname]
      exact .same _
  | @member before after field value next hfield h =>
      have hknown : field.name ∈ fields.map Field.name := List.mem_map_of_mem hfield
      refine readAlike_of_legible (by rw [legible_middle hknown, legible_middle hknown]) ?_
      intro hlegible other hother
      have hnew := (legible_middle hknown).mp hlegible |>.2
      rw [knownFields_append, List.map_append, List.mem_append, not_or] at hnew
      rw [knownFields_middle hknown, knownFields_middle hknown]
      by_cases hname : other.name = field.name
      · obtain rfl := heq hfield hother hname
        rw [lookup_middle_self hnew.1, lookup_middle_self hnew.1]
        exact .rewritten h
      · rw [lookup_middle_of_ne hname, lookup_middle_of_ne hname]
        exact .same _

theorem InRecord.ne_null {json next : Json} (h : InRecord fields json next) :
    json ≠ .null ∧ next ≠ .null := by
  cases h with
  | permute h =>
      cases h
      exact ⟨Json.noConfusion, Json.noConfusion⟩
  | null | unknown | member => exact ⟨Json.noConfusion, Json.noConfusion⟩

/-- A decoder that reads nothing but the fields of a record is insensitive. -/
theorem insensitive_record {decode : Decoder α} {read : Record → Option α}
    (hdistinct : (fields.map Field.name).Nodup)
    (hdecode : ∀ json, decode json = (record? (fields.map Field.name) json).bind read)
    (hread : ∀ record other, Agree fields record other → read record = read other) :
    Insensitive decode (InRecord fields) where
  ne_null := InRecord.ne_null
  decode_eq h := by
    rw [hdecode, hdecode]
    rcases h.readAlike hdistinct with ⟨hfirst, hsecond⟩ | ⟨record, other, hfirst, hsecond, hagree⟩
    · rw [hfirst, hsecond]
    · rw [hfirst, hsecond]
      exact hread record other hagree

variable {name : String} {isOptional : Bool} {rewriting : Rewriting} {record other : Record}
  {decode : Decoder α}

theorem Field.Agrees.required
    (h : (Field.mk name false rewriting).Agrees (record.lookup name) (other.lookup name))
    (hvalue : Insensitive decode rewriting) :
    record.required name decode = other.required name decode := by
  rw [Record.required, Record.required]
  generalize record.lookup name = given? at h
  generalize other.lookup name = next? at h
  cases h with
  | same => rfl
  | rewritten h => exact hvalue.decode_eq h
  | null h => cases h

theorem Field.Agrees.withDefault
    (h : (Field.mk name false rewriting).Agrees (record.lookup name) (other.lookup name))
    (hvalue : Insensitive decode rewriting) (default : α) :
    record.withDefault name default decode = other.withDefault name default decode := by
  rw [Record.withDefault, Record.withDefault]
  generalize record.lookup name = given? at h
  generalize other.lookup name = next? at h
  cases h with
  | same => rfl
  | rewritten h => exact hvalue.decode_eq h
  | null h => cases h

theorem Field.Agrees.optional
    (h : (Field.mk name isOptional rewriting).Agrees (record.lookup name) (other.lookup name))
    (hvalue : Insensitive decode rewriting) :
    record.optional name decode = other.optional name decode := by
  rw [Record.optional, Record.optional]
  generalize record.lookup name = given? at h
  generalize other.lookup name = next? at h
  cases h with
  | same => rfl
  | rewritten h =>
      obtain ⟨hgiven, hnext⟩ := hvalue.ne_null h
      rw [nullable, nullable, hvalue.decode_eq h]
      · exact hnext
      · exact hgiven
  | null => rfl

end Records

/-! ## Tagged entries -/

theorem isSound_perm {members others : List (Content × Json)} (h : members.Perm others) :
    (Json.object members).isSound = (Json.object others).isSound := by
  rw [isSound, isSound]
  induction h with
  | nil => rfl
  | cons member _ ih => simp only [isSound.allSoundMembers, ih]
  | swap first second members =>
      simp only [isSound.allSoundMembers]
      exact Bool.and_left_comm ..
  | trans _ _ ihfirst ihsecond => rw [ihfirst, ihsecond]

theorem depth_perm {members others : List (Content × Json)} (h : members.Perm others) :
    (Json.object members).depth = (Json.object others).depth := by
  rw [depth, depth]
  congr 1
  induction h with
  | nil => rfl
  | cons member _ ih => simp only [depth.memberDepths, ih]
  | swap first second members =>
      simp only [depth.memberDepths]
      exact Nat.max_left_comm ..
  | trans _ _ ihfirst ihsecond => rw [ihfirst, ihsecond]

/-- The tag is found in any order, and what is left are the other members in some order. -/
theorem tagged?_perm (tag : String) {members others : List (Content × Json)}
    (h : members.Perm others) :
    (tagged? tag (.object members) = none ∧ tagged? tag (.object others) = none) ∨
      ∃ kind entry next, tagged? tag (.object members) = some (kind, entry) ∧
        tagged? tag (.object others) = some (kind, next) ∧ Permuted entry next := by
  have htags : (members.filter (·.1 == some tag)).Perm (others.filter (·.1 == some tag)) :=
    h.filter _
  have hrest : Permuted (.object (members.filter (·.1 != some tag)))
      (.object (others.filter (·.1 != some tag))) := .permute (h.filter _)
  rw [tagged?, tagged?]
  split
  · rename_i name kind hkind
    rw [hkind] at htags
    rw [← List.singleton_perm.mp htags]
    exact .inr ⟨kind, _, _, rfl, rfl, hrest⟩
  · rename_i hnone
    split
    · rename_i name kind hkind
      rw [hkind] at htags
      exact absurd (List.perm_singleton.mp htags) (hnone _ _)
    · exact .inl ⟨rfl, rfl⟩

end CiPipeline.Json
