import CiPipeline.Json.Record
import CiPipeline.Proofs.Json.Reading

/-!
# Records are read as they were written

A decoder is faithful to an encoder if it gives back what was encoded. Lists, maps and optional
members of faithful parts are faithful again, and a record is read from its members by their names,
wherever they stand and whichever of them are left out.
-/

namespace CiPipeline.Json

variable {α : Type}

/-- What is encoded can be read back: the decoder gives the value, no value is `null`, which stands
for a missing one, and the text can be scanned. -/
structure Faithful (decode : Decoder α) (encode : α → Json) : Prop where
  decode_encode (x : α) : decode (encode x) = some x
  ne_null (x : α) : encode x ≠ .null
  readable (x : α) : (encode x).Readable

/-! ## Simple values -/

theorem faithful_string : Faithful string? ofString where
  decode_encode _ := rfl
  ne_null _ := Json.noConfusion
  readable text := readable_string (some text)

theorem faithful_member [Vocabulary α] [LawfulVocabulary α] :
    Faithful (member? (α := α)) ofMember where
  decode_encode member := LawfulVocabulary.find?_word member
  ne_null _ := Json.noConfusion
  readable member := readable_string (some (Vocabulary.word member))

theorem mapM_map {decode : Decoder α} {encode : α → Json} (h : Faithful decode encode)
    (items : List α) : (items.map encode).mapM decode = some items := by
  induction items with
  | nil => rfl
  | cons item items ih =>
      rw [List.map_cons, List.mapM_cons, h.decode_encode, ih]
      rfl

theorem faithful_list {decode : Decoder α} {encode : α → Json} (h : Faithful decode encode) :
    Faithful (list? decode) (ofList encode) where
  decode_encode items := mapM_map h items
  ne_null _ := Json.noConfusion
  readable items := by
    apply readable_array
    intro item hitem
    obtain ⟨x, -, rfl⟩ := List.mem_map.mp hitem
    exact h.readable x

theorem mapM_entries {decode : Decoder α} {encode : α → Json} (h : Faithful decode encode)
    (entries : List (String × α)) :
    ((entries.map fun (name, value) => (some name, encode value)).mapM
      fun ((name, member) : Content × Json) => do pure (← name, ← decode member)) =
      some entries := by
  induction entries with
  | nil => rfl
  | cons entry entries ih =>
      rw [List.map_cons, List.mapM_cons, ih]
      simp [h.decode_encode]

/-- A map keeps the order of its entries. -/
theorem faithful_map {decode : Decoder α} {encode : α → Json} (h : Faithful decode encode) :
    Faithful (map? decode) (ofMap encode) where
  decode_encode map := by
    have hentries := mapM_entries h map.toList
    simp only [ofMap, map?, Option.bind_eq_bind] at hentries ⊢
    rw [hentries, Option.bind_some, OrderedMap.ofList_toList, Option.pure_def]
  ne_null _ := Json.noConfusion
  readable map := by
    apply readable_object
    intro member hmember
    obtain ⟨entry, -, rfl⟩ := List.mem_map.mp hmember
    exact h.readable entry.2

/-! ## Whole numbers -/

theorem natural?_ofNat (n : Nat) : natural? (ofNat n) = some n := by
  have hdigits : (Nat.toDigits 10 n).all isDigit = true :=
    List.all_eq_true.mpr fun c => isDigit_of_mem_toDigits
  simp only [ofNat, natural?, hdigits, if_true]
  rw [Nat.ofDigitChars_ten_toDigits]

theorem uint32?_ofNat (n : UInt32) : uint32? (ofNat n.toNat) = some n := by
  have hlt : n.toNat < UInt32.size := n.toNat_lt
  simp [uint32?, natural?_ofNat, hlt]

theorem uint64?_ofNat (n : UInt64) : uint64? (ofNat n.toNat) = some n := by
  have hlt : n.toNat < UInt64.size := n.toNat_lt
  simp [uint64?, natural?_ofNat, hlt]

/-! ## Members -/

/-- The members that are written have the names of the members. -/
theorem written_names_sublist (members : List Member) :
    ((written members).map Prod.fst).Sublist (members.map Prod.fst) := by
  induction members with
  | nil => exact List.Sublist.slnil
  | cons member members ih =>
      obtain ⟨name, value?⟩ := member
      cases value? with
      | none => exact ih.cons name
      | some value => exact ih.cons_cons name

/-- Where the names of members are distinct, each member is found under its name. -/
theorem lookup_written {members : List Member} (h : (members.map Prod.fst).Nodup) :
    ∀ member ∈ members, (written members).lookup member.1 = member.2 := by
  induction members with
  | nil => simp
  | cons member members ih =>
      obtain ⟨first, value?⟩ := member
      rw [List.map_cons, List.nodup_cons] at h
      have hnot : first ∉ (written members).map Prod.fst :=
        fun hmem => h.1 ((written_names_sublist members).subset hmem)
      rw [List.forall_mem_cons]
      cases value? with
      | none =>
          refine ⟨List.lookup_eq_none_iff.mpr fun field hfield => ?_, ih h.2⟩
          rw [bne_iff_ne]
          rintro rfl
          exact hnot (List.mem_map_of_mem hfield)
      | some value =>
          have hwritten : written ((first, some value) :: members) =
              (first, value) :: written members := rfl
          rw [hwritten]
          refine ⟨List.lookup_cons_self, fun member hmember => ?_⟩
          have hne : member.1 ≠ first := by
            rintro rfl
            exact h.1 (List.mem_map.mpr ⟨member, hmember, rfl⟩)
          rw [List.lookup_cons, beq_false_of_ne hne]
          exact ih h.2 member hmember

theorem mapM_named (record : Record) :
    (record.map fun (name, value) => (some name, value)).mapM
      (fun ((name, value) : Content × Json) => name.map fun name => (name, value)) =
      some record := by
  induction record with
  | nil => rfl
  | cons field record ih =>
      rw [List.map_cons, List.mapM_cons, ih]
      rfl

/-- A record is read from the object of its members. -/
theorem record?_ofMembers (members : List Member) (names : List String)
    (hnames : members.map Prod.fst = names) (h : names.Nodup) :
    ∃ record, record? names (ofMembers members) = some record ∧
      ∀ member ∈ members, record.lookup member.1 = member.2 := by
  subst hnames
  have hknown : (written members).filter
      (fun field => (members.map Prod.fst).contains field.1) = written members := by
    rw [List.filter_eq_self]
    intro field hfield
    rw [List.contains_iff_mem]
    exact (written_names_sublist members).subset (List.mem_map_of_mem hfield)
  have hnodup : ((written members).map Prod.fst).Nodup := h.sublist (written_names_sublist members)
  refine ⟨written members, ?_, lookup_written h⟩
  simp only [record?, ofMembers, mapM_named, Option.bind_eq_bind, Option.bind_some, hknown, hnodup,
    if_true]

/-! ## Fields -/

section Fields

variable {decode : Decoder α} {encode : α → Json}

theorem given_some (h : Faithful decode encode) (x : α) : given decode (some (encode x)) = some x :=
  h.decode_encode x

theorem nullable_map (h : Faithful decode encode) (value : Option α) :
    nullable decode (value.map encode) = some value := by
  cases value with
  | none => rfl
  | some x =>
      have hnull : encode x ≠ .null := h.ne_null x
      simp only [Option.map_some, nullable, h.decode_encode]

/-- No items are the default for missing ones. -/
theorem orDefault_items (h : Faithful decode encode) (items : List α) :
    orDefault [] (list? decode) (if items.isEmpty then none else some (ofList encode items)) =
      some items := by
  cases items with
  | nil => rfl
  | cons item items => exact (faithful_list h).decode_encode (item :: items)

theorem orDefault_entries (h : Faithful decode encode) (map : OrderedMap α) :
    orDefault .empty (map? decode) (if map.isEmpty then none else some (ofMap encode map)) =
      some map := by
  by_cases hempty : map.isEmpty = true
  · rw [if_pos hempty]
    have hnil : map.toList = [] := List.isEmpty_iff.mp hempty
    exact congrArg some (OrderedMap.ext hnil.symm)
  · rw [if_neg hempty]
    exact (faithful_map h).decode_encode map

theorem orDefault_uint32 (n : UInt32) :
    orDefault 0 uint32? (if n.toNat = 0 then none else some (ofNat n.toNat)) = some n := by
  by_cases hzero : n.toNat = 0
  · rw [if_pos hzero]
    exact congrArg some (UInt32.toNat_inj.mp hzero.symm)
  · rw [if_neg hzero]
    exact uint32?_ofNat n

theorem orDefault_uint64 (n : UInt64) :
    orDefault 0 uint64? (if n.toNat = 0 then none else some (ofNat n.toNat)) = some n := by
  by_cases hzero : n.toNat = 0
  · rw [if_pos hzero]
    exact congrArg some (UInt64.toNat_inj.mp hzero.symm)
  · rw [if_neg hzero]
    exact uint64?_ofNat n

/-! ## Readable members -/

/-- A member whose value, if it is written, can be read. -/
def Member.Readable (member : Member) : Prop := ∀ value ∈ member.2, value.Readable

theorem readable_ofMembers {members : List Member}
    (h : ∀ member ∈ members, Member.Readable member) : (ofMembers members).Readable := by
  apply readable_object
  intro named hnamed
  obtain ⟨field, hfield, rfl⟩ := List.mem_map.mp hnamed
  obtain ⟨member, hmember, hvalue⟩ := List.mem_filterMap.mp hfield
  obtain ⟨value, hsome, rfl⟩ := Option.map_eq_some_iff.mp hvalue
  exact h member hmember value hsome

theorem readable_always (h : Faithful decode encode) (name : String) (x : α) :
    (always name (encode x)).Readable := by
  rintro value ⟨⟩
  exact h.readable x

theorem readable_ifSome (h : Faithful decode encode) (name : String) (value : Option α) :
    (ifSome name encode value).Readable := by
  intro json hjson
  obtain ⟨x, -, rfl⟩ := Option.map_eq_some_iff.mp hjson
  exact h.readable x

theorem readable_ifItems (h : Faithful decode encode) (name : String) (items : List α) :
    (ifItems name encode items).Readable := by
  intro json hjson
  obtain ⟨-, ⟨⟩⟩ := Option.ite_none_left_eq_some.mp hjson
  exact (faithful_list h).readable items

theorem readable_ifEntries (h : Faithful decode encode) (name : String) (map : OrderedMap α) :
    (ifEntries name encode map).Readable := by
  intro json hjson
  obtain ⟨-, ⟨⟩⟩ := Option.ite_none_left_eq_some.mp hjson
  exact (faithful_map h).readable map

theorem readable_ifPositive (name : String) (n : Nat) : (ifPositive name n).Readable := by
  intro json hjson
  obtain ⟨-, ⟨⟩⟩ := Option.ite_none_left_eq_some.mp hjson
  exact readable_ofNat n

end Fields

/-- A record is faithful if it is read from its members and these are readable. -/
theorem faithful_ofMembers {decode : Decoder α} {members : α → List Member}
    (hdecode : ∀ x, decode (ofMembers (members x)) = some x)
    (hreadable : ∀ x, ∀ member ∈ members x, Member.Readable member) :
    Faithful decode fun x => ofMembers (members x) where
  decode_encode := hdecode
  ne_null _ := Json.noConfusion
  readable x := readable_ofMembers (hreadable x)

/-! ## Tagged entries -/

/-- The tag in front of members is told apart from them. -/
theorem tagged?_ofMembers {tag : String} (word : String) {members : List Member}
    (h : tag ∉ members.map Prod.fst) :
    tagged? tag (ofMembers (always tag (ofString word) :: members)) =
      some (word, ofMembers members) := by
  let rest : List (Content × Json) := (written members).map fun (name, value) => (some name, value)
  have hne : ∀ field ∈ rest, field.1 ≠ some tag := by
    intro field hfield htag
    obtain ⟨member, hmember, rfl⟩ := List.mem_map.mp hfield
    cases htag
    exact h ((written_names_sublist members).subset (List.mem_map_of_mem hmember))
  have hfind : rest.filter (·.1 == some tag) = [] := by
    rw [List.filter_eq_nil_iff]
    intro field hfield
    rw [beq_iff_eq]
    exact hne field hfield
  have hkeep : rest.filter (·.1 != some tag) = rest := by
    rw [List.filter_eq_self]
    intro field hfield
    exact bne_iff_ne.mpr (hne field hfield)
  have hobject : ofMembers (always tag (ofString word) :: members) =
      .object ((some tag, ofString word) :: rest) := rfl
  rw [hobject, tagged?, List.filter_cons_of_pos (by simp), List.filter_cons_of_neg (by simp),
    hfind, hkeep]
  rfl

theorem isSound_strings (items : List String) : (ofList ofString items).isSound = true := by
  rw [ofList, isSound]
  induction items with
  | nil => rfl
  | cons item items ih => exact ih

theorem depth_strings (items : List String) : (ofList ofString items).depth = 1 := by
  have hitems : depth.depths (items.map ofString) = 0 := by
    induction items with
    | nil => rfl
    | cons item items ih =>
        rw [List.map_cons, depth.depths, ih]
        rfl
  rw [ofList, depth, hitems]

end CiPipeline.Json
