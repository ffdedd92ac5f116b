/-!
# Maps that remember their order

A map from names to values whose entries stand in the order in which their names first came.
Writing a name again replaces its value and leaves its place alone.
-/

namespace CiPipeline

/-- Writes one entry into a list of entries: in place if the name is there, else at the end. -/
def writeEntry (name : String) (value : α) : List (String × α) → List (String × α)
  | [] => [(name, value)]
  | entry :: rest =>
      if entry.1 = name then (name, value) :: rest else entry :: writeEntry name value rest

theorem writeEntry_of_mem {name : String} (value : α) {entries : List (String × α)}
    (h : name ∈ entries.map Prod.fst) :
    (writeEntry name value entries).map Prod.fst = entries.map Prod.fst := by
  induction entries with
  | nil => simp at h
  | cons entry rest ih =>
      by_cases hn : entry.1 = name
      · simp [writeEntry, hn]
      · have hr : name ∈ rest.map Prod.fst := by
          rcases List.mem_cons.mp h with h | h
          · exact absurd h.symm hn
          · exact h
        simp [writeEntry, hn, ih hr]

theorem writeEntry_of_not_mem {name : String} (value : α) {entries : List (String × α)}
    (h : name ∉ entries.map Prod.fst) :
    writeEntry name value entries = entries ++ [(name, value)] := by
  induction entries with
  | nil => rfl
  | cons entry rest ih =>
      simp only [List.map_cons, List.mem_cons, not_or] at h
      simp [writeEntry, Ne.symm h.1, ih h.2]

theorem nodup_writeEntry (name : String) (value : α) {entries : List (String × α)}
    (h : (entries.map Prod.fst).Nodup) : ((writeEntry name value entries).map Prod.fst).Nodup := by
  by_cases hm : name ∈ entries.map Prod.fst
  · rwa [writeEntry_of_mem value hm]
  · rw [writeEntry_of_not_mem value hm, List.map_append, List.map_cons, List.map_nil]
    refine List.nodup_append.mpr ⟨h, by simp, ?_⟩
    intro a ha b hb hab
    rw [List.mem_singleton] at hb
    rw [hab, hb] at ha
    exact hm ha

/-- A map from names to values that keeps its entries in the order of their first writing. -/
structure OrderedMap (α : Type) where
  /-- The entries, oldest name first. -/
  toList : List (String × α)
  /-- No name has two entries. -/
  nodup : (toList.map Prod.fst).Nodup

namespace OrderedMap

@[ext] theorem ext {m n : OrderedMap α} (h : m.toList = n.toList) : m = n := by
  cases m; cases n; cases h; rfl

instance [DecidableEq α] : DecidableEq (OrderedMap α) := fun m n =>
  if h : m.toList = n.toList then isTrue (ext h) else isFalse fun e => h (e ▸ rfl)

def empty : OrderedMap α := ⟨[], List.nodup_nil⟩

instance : Inhabited (OrderedMap α) := ⟨empty⟩

def keys (m : OrderedMap α) : List String := m.toList.map Prod.fst

def size (m : OrderedMap α) : Nat := m.toList.length

def isEmpty (m : OrderedMap α) : Bool := m.toList.isEmpty

def get? (m : OrderedMap α) (name : String) : Option α := m.toList.lookup name

def contains (m : OrderedMap α) (name : String) : Bool := m.toList.any (·.1 == name)

/-- Gives a name a value: in the place of its old entry, else at the end. -/
def insert (m : OrderedMap α) (name : String) (value : α) : OrderedMap α :=
  ⟨writeEntry name value m.toList, nodup_writeEntry name value m.nodup⟩

def extend (m : OrderedMap α) (entries : List (String × α)) : OrderedMap α :=
  entries.foldl (fun m entry => m.insert entry.1 entry.2) m

/-- The map of a list of entries: of a name given twice, the first place and the last value. -/
def ofList (entries : List (String × α)) : OrderedMap α := empty.extend entries

@[simp] theorem toList_empty : (empty : OrderedMap α).toList = [] := rfl

@[simp] theorem toList_insert (m : OrderedMap α) (name : String) (value : α) :
    (m.insert name value).toList = writeEntry name value m.toList := rfl

theorem contains_iff {m : OrderedMap α} {name : String} :
    m.contains name = true ↔ name ∈ m.keys := by
  simp [contains, keys]

/-- Writing a known name keeps the names; writing a new one adds it at the end. -/
theorem keys_insert (m : OrderedMap α) (name : String) (value : α) :
    (m.insert name value).keys = if m.contains name then m.keys else m.keys ++ [name] := by
  by_cases h : name ∈ m.keys
  · rw [if_pos (contains_iff.mpr h)]
    exact writeEntry_of_mem value h
  · rw [if_neg (fun hc => h (contains_iff.mp hc))]
    simp only [keys, toList_insert, writeEntry_of_not_mem value h]
    simp

/-- Entries with distinct new names are appended as they stand. -/
theorem toList_extend_of_nodup (m : OrderedMap α) {entries : List (String × α)}
    (h : ((m.toList ++ entries).map Prod.fst).Nodup) :
    (m.extend entries).toList = m.toList ++ entries := by
  induction entries generalizing m with
  | nil => simp [extend]
  | cons entry rest ih =>
      have hm : entry.1 ∉ m.toList.map Prod.fst := by
        rw [List.map_append, List.nodup_append] at h
        intro hmem
        exact h.2.2 _ hmem _ (List.mem_cons_self) rfl
      have step : (m.insert entry.1 entry.2).toList = m.toList ++ [entry] :=
        writeEntry_of_not_mem entry.2 hm
      have hs : (((m.insert entry.1 entry.2).toList ++ rest).map Prod.fst).Nodup := by
        rw [step]; simpa using h
      have := ih (m.insert entry.1 entry.2) hs
      rw [step] at this
      simpa [extend] using this

@[simp] theorem ofList_toList (m : OrderedMap α) : ofList m.toList = m := by
  apply ext
  have h : (((empty : OrderedMap α).toList ++ m.toList).map Prod.fst).Nodup := by
    simpa using m.nodup
  simpa [ofList] using toList_extend_of_nodup (empty : OrderedMap α) h

end OrderedMap

end CiPipeline
