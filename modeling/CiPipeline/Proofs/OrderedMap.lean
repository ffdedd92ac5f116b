import CiPipeline.OrderedMap

/-!
# Lookups in ordered maps

What a map answers for a name before and after a write, and the maps that number a list of names.
-/

namespace CiPipeline

theorem lookup_writeEntry (name other : String) (value : α) (entries : List (String × α)) :
    (writeEntry name value entries).lookup other =
      if other = name then some value else entries.lookup other := by
  induction entries with
  | nil =>
      by_cases h : other = name <;> simp [writeEntry, h]
  | cons entry rest ih =>
      obtain ⟨key, old⟩ := entry
      by_cases h : other = key
      · by_cases hk : key = name
        · simp [writeEntry, h, hk]
        · simp [writeEntry, h, hk]
      · have hb : (other == key) = false := by simp [h]
        by_cases hk : key = name
        · subst hk
          simp [writeEntry, List.lookup_cons, hb, h]
        · simp [writeEntry, List.lookup_cons, hb, hk, ih]

theorem writeEntry_of_lookup {name : String} {value : α} {entries : List (String × α)}
    (h : entries.lookup name = some value) : writeEntry name value entries = entries := by
  induction entries with
  | nil => cases h
  | cons entry rest ih =>
      obtain ⟨key, old⟩ := entry
      by_cases hkey : key = name
      · subst hkey
        rw [List.lookup_cons_self, Option.some_inj] at h
        rw [writeEntry, if_pos rfl, h]
      · have hother : (name == key) = false := by simpa using Ne.symm hkey
        rw [List.lookup_cons, hother] at h
        rw [writeEntry, if_neg hkey, ih h]

/-- What stands in a list stands at the same place of every list that goes on with more items. -/
theorem getElem?_of_isPrefix {items longer : List α} (h : items <+: longer) {place : Nat} {item : α}
    (hitem : items[place]? = some item) : longer[place]? = some item := by
  obtain ⟨hlt, rfl⟩ := List.getElem?_eq_some_iff.mp hitem
  exact List.prefix_iff_getElem?.mp h place hlt

/-- A further item is kept if it is new. -/
theorem eraseDups_concat [BEq α] [LawfulBEq α] (items : List α) (item : α) :
    (items ++ [item]).eraseDups =
      if item ∈ items then items.eraseDups else items.eraseDups ++ [item] := by
  rw [List.eraseDups_append]
  by_cases hknown : item ∈ items
  · simp [List.removeAll, hknown]
  · have hsingle : [item].eraseDups = [item] := rfl
    simp [List.removeAll, hknown, hsingle]

namespace OrderedMap

@[simp] theorem get?_empty (name : String) : (empty : OrderedMap α).get? name = none := rfl

theorem get?_insert (m : OrderedMap α) (name other : String) (value : α) :
    (m.insert name value).get? other = if other = name then some value else m.get? other :=
  lookup_writeEntry name other value m.toList

theorem mem_of_get? {m : OrderedMap α} {name : String} {value : α} (h : m.get? name = some value) :
    (name, value) ∈ m.toList := by
  obtain ⟨before, after, hsplit, -⟩ := List.lookup_eq_some_iff.mp h
  simp [hsplit]

/-- A name has one entry only, so that the one found is any that is there. -/
theorem get?_eq_some_iff {m : OrderedMap α} {name : String} {value : α} :
    m.get? name = some value ↔ (name, value) ∈ m.toList := by
  refine ⟨mem_of_get?, fun h => ?_⟩
  obtain ⟨before, after, hsplit⟩ := List.append_of_mem h
  refine List.lookup_eq_some_iff.mpr ⟨before, after, hsplit, fun entry hentry => ?_⟩
  have hnodup := m.nodup
  rw [hsplit, List.map_append, List.nodup_append] at hnodup
  have hne := hnodup.2.2 entry.1 (List.mem_map_of_mem hentry) name (by simp)
  simpa using Ne.symm hne

theorem get?_eq_none_iff {m : OrderedMap α} {name : String} :
    m.get? name = none ↔ name ∉ m.keys := by
  simp only [get?, keys, List.lookup_eq_none_iff, List.mem_map, not_exists, not_and]
  constructor
  · intro h entry hentry heq
    simpa [heq] using h entry hentry
  · intro h entry hentry
    simpa using Ne.symm (h entry hentry)

theorem contains_eq_isSome (m : OrderedMap α) (name : String) :
    m.contains name = (m.get? name).isSome := by
  rw [Bool.eq_iff_iff, contains_iff, Option.isSome_iff_ne_none, ne_eq, get?_eq_none_iff]
  exact Decidable.not_not.symm

theorem mem_keys_insert {m : OrderedMap α} {name other : String} {value : α} :
    other ∈ (m.insert name value).keys ↔ other ∈ m.keys ∨ other = name := by
  rw [keys_insert]
  split
  · rename_i hknown
    rw [contains_iff] at hknown
    constructor
    · exact .inl
    · rintro (hold | rfl)
      · exact hold
      · exact hknown
  · rw [List.mem_append, List.mem_singleton]

theorem mem_keys_extend {m : OrderedMap α} {entries : List (String × α)} {name : String} :
    name ∈ (m.extend entries).keys ↔ name ∈ m.keys ∨ name ∈ entries.map Prod.fst := by
  induction entries generalizing m with
  | nil => simp [extend]
  | cons entry entries ih =>
      have hrest : m.extend (entry :: entries) = (m.insert entry.1 entry.2).extend entries := rfl
      rw [hrest, ih, mem_keys_insert, List.map_cons, List.mem_cons, or_assoc]

/-- Entries with distinct names come before those that were there. -/
theorem get?_extend {entries : List (String × α)} (h : (entries.map Prod.fst).Nodup)
    (m : OrderedMap α) (name : String) :
    (m.extend entries).get? name = (entries.lookup name).or (m.get? name) := by
  induction entries generalizing m with
  | nil => rfl
  | cons entry entries ih =>
      obtain ⟨key, value⟩ := entry
      rw [List.map_cons, List.nodup_cons] at h
      change ((m.insert key value).extend entries).get? name = _
      rw [ih h.2, get?_insert]
      by_cases hname : name = key
      · have hlast : entries.lookup name = none := by
          rw [List.lookup_eq_none_iff]
          intro other hother
          have hkey : other.1 ∈ entries.map Prod.fst := List.mem_map_of_mem hother
          rw [hname, bne_iff_ne]
          rintro rfl
          exact h.1 hkey
        rw [hlast, if_pos hname, hname, List.lookup_cons_self]
        rfl
      · have hother : (name == key) = false := by simpa using hname
        rw [if_neg hname, List.lookup_cons, hother]

theorem get?_extend_toList (m n : OrderedMap α) (name : String) :
    (m.extend n.toList).get? name = (n.get? name).or (m.get? name) :=
  get?_extend n.nodup m name

theorem isEmpty_iff {m : OrderedMap α} : m.isEmpty = true ↔ m = empty := by
  rw [isEmpty, List.isEmpty_iff, OrderedMap.ext_iff, toList_empty]

theorem keys_eq_nil_iff {m : OrderedMap α} : m.keys = [] ↔ m = empty := by
  rw [keys, List.map_eq_nil_iff, OrderedMap.ext_iff, toList_empty]

/-- Writing the value that a name has already changes nothing. -/
theorem insert_of_get? {m : OrderedMap α} {name : String} {value : α}
    (h : m.get? name = some value) : m.insert name value = m :=
  ext (writeEntry_of_lookup h)

/-! ## The same entries -/

theorem nodup_toList (m : OrderedMap α) : m.toList.Nodup :=
  List.Pairwise.of_map Prod.fst (fun _ _ hne heq => hne (congrArg Prod.fst heq)) m.nodup

/-- The same names with the same values, in whatever order. -/
def SameEntries (m n : OrderedMap α) : Prop := m.toList.Perm n.toList

theorem sameEntries_iff {m n : OrderedMap α} :
    m.SameEntries n ↔ ∀ name value, m.get? name = some value ↔ n.get? name = some value := by
  simp only [get?_eq_some_iff]
  rw [SameEntries, List.perm_ext_iff_of_nodup m.nodup_toList n.nodup_toList, Prod.forall]

/-! ## Numbering -/

/-- A map that gives each name of a list its place there, and nothing else. -/
def Numbers (m : OrderedMap Nat) (names : List String) : Prop := m.toList = names.zipIdx

theorem numbers_empty : (empty : OrderedMap Nat).Numbers [] := rfl

namespace Numbers

variable {m : OrderedMap Nat} {names : List String}

theorem keys_eq (h : m.Numbers names) : m.keys = names := by
  rw [keys, h, List.zipIdx_map_fst]

theorem nodup (h : m.Numbers names) : names.Nodup := by
  have hkeys : m.keys.Nodup := m.nodup
  rwa [h.keys_eq] at hkeys

theorem contains_iff (h : m.Numbers names) {name : String} :
    m.contains name = true ↔ name ∈ names := by
  rw [OrderedMap.contains_iff, h.keys_eq]

theorem get?_eq_some_iff (h : m.Numbers names) {name : String} {place : Nat} :
    m.get? name = some place ↔ names[place]? = some name := by
  rw [OrderedMap.get?_eq_some_iff, h, List.mem_zipIdx_iff_getElem?]

theorem get?_eq_none_iff (h : m.Numbers names) {name : String} :
    m.get? name = none ↔ name ∉ names := by
  rw [OrderedMap.get?_eq_none_iff, h.keys_eq]

/-- A name stands at one place only. -/
theorem place_eq (h : m.Numbers names) {name : String} {place other : Nat}
    (hplace : names[place]? = some name) (hother : names[other]? = some name) : place = other := by
  have hfound : m.get? name = some place := h.get?_eq_some_iff.mpr hplace
  rw [h.get?_eq_some_iff.mpr hother] at hfound
  exact (Option.some.inj hfound).symm

/-- A new name takes the next number. -/
theorem insert (h : m.Numbers names) {name : String} (hnew : name ∉ names) :
    (m.insert name names.length).Numbers (names ++ [name]) := by
  have hkey : name ∉ m.toList.map Prod.fst := by
    rw [show m.toList.map Prod.fst = names from h.keys_eq]
    exact hnew
  unfold Numbers at h ⊢
  rw [toList_insert, writeEntry_of_not_mem _ hkey, h, List.zipIdx_append]
  simp

end Numbers

end OrderedMap

end CiPipeline
