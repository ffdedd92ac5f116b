import CiPipeline.Pipeline.Registry
import CiPipeline.Proofs.OrderedMap

/-!
# What a registry holds

Each resource is registered under the id that directories and caches give themselves. An id settles
the kind of its resource, for all registries alike, and registering keeps what is there. What is
mounted is registered once, whatever the order.
-/

namespace CiPipeline

/-- The id of a directory tells its path. -/
theorem Directory.path_eq_of_id {directory other : Directory} (h : directory.id = other.id) :
    directory.path = other.path := by
  simpa [id] using h

/-- A resource under the id of the directory or the cache that it is of. -/
def Resource.RegisteredAs (id : String) : Resource → Prop
  | .directory path _ => ∃ directory : Directory, directory.path = path ∧ directory.id = id
  | .cache name => ∃ cache : Cache, cache.name = name ∧ cache.id = id

/-- An id stands for directories or for caches, never for both. -/
theorem Resource.RegisteredAs.kind_eq {id : String} {resource other : Resource}
    (h : resource.RegisteredAs id) (hother : other.RegisteredAs id) :
    resource.kind = other.kind := by
  cases resource with
  | directory path globs =>
      obtain ⟨directory, -, hdirectory⟩ := h
      cases other with
      | directory => rfl
      | cache name =>
          obtain ⟨cache, -, hcache⟩ := hother
          exact absurd (hcache.trans hdirectory.symm) (cache.id_ne directory)
  | cache name =>
      obtain ⟨cache, -, hcache⟩ := h
      cases other with
      | cache => rfl
      | directory path globs =>
          obtain ⟨directory, -, hdirectory⟩ := hother
          exact absurd (hcache.trans hdirectory.symm) (cache.id_ne directory)

namespace Registry

/-- Every resource is under its own id. -/
def Sound (registry : Registry) : Prop :=
  ∀ id resource, registry.get? id = some resource → resource.RegisteredAs id

theorem sound_empty : Sound .empty := by
  intro id resource h
  cases h

/-- A directory that is registered is put under its id, with the globs that it had. -/
theorem addDirectory_eq {registry : Registry} (h : Sound registry) (directory : Directory)
    (globs : List String) :
    ∃ known, addDirectory registry directory globs =
      registry.insert directory.id (.directory directory.path (addNew known globs)) := by
  rw [addDirectory]
  cases hfound : registry.get? directory.id with
  | none => exact ⟨[], rfl⟩
  | some resource =>
      have hresource := h _ _ hfound
      cases resource with
      | directory path known =>
          obtain ⟨other, rfl, hid⟩ := hresource
          exact ⟨known, by rw [Directory.path_eq_of_id hid]⟩
      | cache name =>
          obtain ⟨cache, -, hid⟩ := hresource
          exact absurd hid (cache.id_ne directory)

theorem registeredAs_directory (directory : Directory) (globs : List String) :
    (Resource.directory directory.path globs).RegisteredAs directory.id :=
  ⟨directory, rfl, rfl⟩

theorem registeredAs_cache (cache : Cache) : (Resource.cache cache.name).RegisteredAs cache.id :=
  ⟨cache, rfl, rfl⟩

/-! ## Growing -/

/-- What is in the first registry is in the second one, with the same kind. -/
def Within (registry later : Registry) : Prop :=
  ∀ id resource, registry.get? id = some resource →
    ∃ other, later.get? id = some other ∧ other.kind = resource.kind

/-- The second registry is sound and has all that is in the first one. -/
structure Grows (registry later : Registry) : Prop where
  sound : Sound later
  within : Within registry later

theorem Sound.grows_refl {registry : Registry} (h : Sound registry) : Grows registry registry where
  sound := h
  within _ resource hfound := ⟨resource, hfound, rfl⟩

theorem Sound.grows_insert {registry : Registry} (h : Sound registry) {id : String}
    {resource : Resource} (hresource : resource.RegisteredAs id) :
    Grows registry (registry.insert id resource) where
  sound := by
    intro other found hfound
    rw [OrderedMap.get?_insert] at hfound
    by_cases hid : other = id
    · rw [if_pos hid] at hfound
      cases hfound
      rwa [hid]
    · rw [if_neg hid] at hfound
      exact h other found hfound
  within := by
    intro other found hfound
    rw [OrderedMap.get?_insert]
    by_cases hid : other = id
    · subst hid
      exact ⟨resource, if_pos rfl, hresource.kind_eq (h other found hfound)⟩
    · exact ⟨found, by rwa [if_neg hid], rfl⟩

theorem Sound.grows_addDirectory {registry : Registry} (h : Sound registry)
    (directory : Directory) (globs : List String) :
    Grows registry (addDirectory registry directory globs) := by
  obtain ⟨known, hadd⟩ := addDirectory_eq h directory globs
  rw [hadd]
  exact h.grows_insert (registeredAs_directory directory _)

theorem Sound.grows_addCache {registry : Registry} (h : Sound registry) (cache : Cache) :
    Grows registry (addCache registry cache) := by
  rw [addCache]
  split
  · exact h.grows_refl
  · exact h.grows_insert (registeredAs_cache cache)

/-! ## Backed mounts -/

/-- The mount is at an absolute path, and its resource is registered with its kind. -/
structure Backs (registry : Registry) (mount : Mount) : Prop where
  absolute : mount.path.toList.head? = some '/'
  registered : ∃ resource, registry.get? mount.resource = some resource ∧
    resource.kind = mount.kind

theorem Backs.mono {registry later : Registry} {mount : Mount} (h : Backs registry mount)
    (hwithin : Within registry later) : Backs later mount := by
  obtain ⟨resource, hfound, hkind⟩ := h.registered
  obtain ⟨other, hother, hsame⟩ := hwithin _ _ hfound
  exact ⟨h.absolute, other, hother, hsame.trans hkind⟩

theorem backs_directory {registry : Registry} (h : Sound registry) (directory : Directory)
    (globs : List String) {path : String} (hpath : path.toList.head? = some '/') :
    Backs (addDirectory registry directory globs) (directory.mountAt path) := by
  obtain ⟨known, hadd⟩ := addDirectory_eq h directory globs
  refine ⟨hpath, .directory directory.path (addNew known globs), ?_, rfl⟩
  rw [hadd, OrderedMap.get?_insert]
  exact if_pos rfl

theorem backs_cache {registry : Registry} (h : Sound registry) (cache : Cache) {path : String}
    (hpath : path.toList.head? = some '/') :
    Backs (addCache registry cache) (cache.mountAt path) := by
  have hsound := (h.grows_addCache cache).sound
  have hkey : (addCache registry cache).contains cache.id = true := by
    rw [addCache]
    split
    · assumption
    · rw [OrderedMap.contains_eq_isSome, OrderedMap.get?_insert, if_pos rfl]
      rfl
  rw [OrderedMap.contains_eq_isSome, Option.isSome_iff_exists] at hkey
  obtain ⟨resource, hfound⟩ := hkey
  have hkind := (hsound _ _ hfound).kind_eq (registeredAs_cache cache)
  exact ⟨hpath, resource, hfound, hkind⟩

end Registry

/-! ## What is mounted -/

/-- What can be mounted: a directory or a cache, wherever it was made. -/
inductive Mountable where
  | directory (directory : Directory)
  | cache (cache : Cache)

namespace Mountable

def id : Mountable → String
  | .directory source => source.id
  | .cache store => store.id

/-- The resource that a mount registers. -/
def resource : Mountable → Resource
  | .directory source => .directory source.path []
  | .cache store => .cache store.name

/-- What goes by the same id is registered as the same resource. -/
theorem resource_eq_of_id {item other : Mountable} (h : item.id = other.id) :
    item.resource = other.resource := by
  cases item with
  | directory source =>
      cases other with
      | directory another =>
          have hpath : source.path = another.path := Directory.path_eq_of_id h
          rw [resource, resource, hpath]
      | cache store => exact absurd h.symm (store.id_ne source)
  | cache store =>
      cases other with
      | directory source => exact absurd h (store.id_ne source)
      | cache another => exact congrArg Resource.cache h

end Mountable

namespace Registry

/-- Registers what is mounted, unless its id is known. -/
def ensure (registry : Registry) (item : Mountable) : Registry :=
  if registry.contains item.id then registry else registry.insert item.id item.resource

/-- A directory that is mounted gets no globs, and one that is known keeps those that it has. -/
theorem addDirectory_nil (registry : Registry) (directory : Directory) :
    addDirectory registry directory [] = ensure registry (.directory directory) := by
  rw [addDirectory, ensure, OrderedMap.contains_eq_isSome]
  change _ = if (registry.get? directory.id).isSome then _ else _
  cases hfound : registry.get? directory.id with
  | none => rfl
  | some resource =>
      cases resource with
      | directory path known => exact OrderedMap.insert_of_get? hfound
      | cache name => rfl

theorem get?_ensure_eq_none_iff {registry : Registry} {item : Mountable} {id : String} :
    (ensure registry item).get? id = none ↔ registry.get? id = none ∧ item.id ≠ id := by
  rw [ensure, OrderedMap.contains_eq_isSome]
  by_cases hid : item.id = id
  · subst hid
    cases hfound : registry.get? item.id <;> simp [hfound, OrderedMap.get?_insert]
  · cases registry.get? item.id <;> simp [hid, Ne.symm hid, OrderedMap.get?_insert]

theorem get?_ensure_eq_some_iff {registry : Registry} {item : Mountable} {id : String}
    {resource : Resource} :
    (ensure registry item).get? id = some resource ↔ registry.get? id = some resource ∨
      registry.get? id = none ∧ item.id = id ∧ item.resource = resource := by
  rw [ensure, OrderedMap.contains_eq_isSome]
  by_cases hid : item.id = id
  · subst hid
    cases hfound : registry.get? item.id <;> simp [hfound, OrderedMap.get?_insert]
  · cases registry.get? item.id <;> simp [hid, Ne.symm hid, OrderedMap.get?_insert]

def ensureAll (registry : Registry) (items : List Mountable) : Registry :=
  items.foldl ensure registry

/-- What is known stays as it is, and what is new is there if it is among the items. -/
theorem get?_ensureAll_eq_some_iff {registry : Registry} {items : List Mountable} {id : String}
    {resource : Resource} :
    (ensureAll registry items).get? id = some resource ↔ registry.get? id = some resource ∨
      registry.get? id = none ∧ ∃ item ∈ items, item.id = id ∧ item.resource = resource := by
  induction items generalizing registry with
  | nil => simp [ensureAll]
  | cons first rest ih =>
      have hrest : ensureAll registry (first :: rest) =
          ensureAll (ensure registry first) rest := rfl
      rw [hrest, ih, get?_ensure_eq_some_iff, get?_ensure_eq_none_iff]
      constructor
      · rintro ((hknown | ⟨hnew, hitem⟩) | ⟨⟨hnew, -⟩, item, hmem, hitem⟩)
        · exact .inl hknown
        · exact .inr ⟨hnew, first, List.mem_cons_self, hitem⟩
        · exact .inr ⟨hnew, item, List.mem_cons_of_mem first hmem, hitem⟩
      · rintro (hknown | ⟨hnew, item, hmem, hid, hresource⟩)
        · exact .inl (.inl hknown)
        · by_cases hfirst : first.id = id
          · have hsame := Mountable.resource_eq_of_id (hfirst.trans hid.symm)
            exact .inl (.inr ⟨hnew, hfirst, hsame.trans hresource⟩)
          · rcases List.mem_cons.mp hmem with rfl | hmem
            · exact absurd hid hfirst
            · exact .inr ⟨⟨hnew, hfirst⟩, item, hmem, hid, hresource⟩

/-- In which order and how often things are mounted does not matter to what is registered. -/
theorem sameEntries_ensureAll (registry : Registry) {items others : List Mountable}
    (h : ∀ item, item ∈ items ↔ item ∈ others) :
    (ensureAll registry items).SameEntries (ensureAll registry others) := by
  refine OrderedMap.sameEntries_iff.mpr fun id resource => ?_
  simp only [get?_ensureAll_eq_some_iff, h]

end Registry

end CiPipeline
