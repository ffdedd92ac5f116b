import CiPipeline.Proofs.Pipeline.History

/-!
# The history of the registry

Directories and caches are registered by calls of their own and by being mounted. Main statement:
the resources that are emitted are told by the history of what was registered. Each id stands where
it first came, a directory has all globs that were given for it, each where it first came, and what
is registered once more with nothing new changes nothing.
-/

namespace CiPipeline

/-- Adding what is new to a list without repetitions leaves out all repetitions. -/
theorem addNew_eraseDups [BEq α] [LawfulBEq α] (known more : List α) :
    addNew known.eraseDups more = (known ++ more).eraseDups := by
  induction more generalizing known with
  | nil => rw [List.append_nil, addNew, List.foldl_nil]
  | cons item more ih =>
      have hstep : (if known.eraseDups.contains item then known.eraseDups
          else known.eraseDups ++ [item]) = (known ++ [item]).eraseDups := by
        rw [eraseDups_concat]
        simp only [List.contains_iff_mem, List.mem_eraseDups]
      change addNew (if known.eraseDups.contains item then _ else _) more = _
      rw [hstep, ih, List.append_assoc, List.singleton_append]

theorem addNew_of_subset [BEq α] [LawfulBEq α] {known more : List α} (h : more ⊆ known) :
    addNew known more = known := by
  induction more with
  | nil => rfl
  | cons item more ih =>
      rw [List.cons_subset] at h
      change addNew (if known.contains item then known else known ++ [item]) more = _
      rw [if_pos (List.contains_iff_mem.mpr h.1), ih h.2]

/-! ## Registrations -/

/-- What is registered: a directory with the globs that are given for it, or a cache. -/
inductive Registration where
  | directory (source : Directory) (globs : List String)
  | cache (store : Cache)
deriving DecidableEq

namespace Registration

def id : Registration → String
  | .directory source _ => source.id
  | .cache store => store.id

def globs : Registration → List String
  | .directory _ globs => globs
  | .cache _ => []

/-- What stands in a registry for what was registered, given all its globs. -/
def resource (globs : List String) : Registration → Resource
  | .directory source _ => .directory source.path globs
  | .cache store => .cache store.name

/-- All globs that were given for an id, each where it first came. -/
def globsOf (history : List Registration) (id : String) : List String :=
  ((history.filter fun registration => registration.id = id).flatMap globs).eraseDups

/-- Something was registered under its id before, and all of its globs were given. -/
def Known (history : List Registration) (registration : Registration) : Prop :=
  registration.id ∈ history.map id ∧ registration.globs ⊆ globsOf history registration.id

instance (history : List Registration) (registration : Registration) :
    Decidable (registration.Known history) :=
  inferInstanceAs (Decidable (_ ∧ _))

/-- What goes by the same id is the same resource. -/
theorem resource_eq_of_id {registration other : Registration} (h : registration.id = other.id)
    (globs : List String) : registration.resource globs = other.resource globs := by
  cases registration with
  | directory source =>
      cases other with
      | directory another =>
          have hpath : source.path = another.path := Directory.path_eq_of_id h
          rw [resource, resource, hpath]
      | cache store => exact absurd h.symm (store.id_ne source)
  | cache store =>
      cases other with
      | directory source => exact absurd h (store.id_ne source)
      | cache another => exact congrArg Resource.cache h

theorem globsOf_concat (history : List Registration) (registration : Registration) :
    globsOf (history ++ [registration]) registration.id =
      addNew (globsOf history registration.id) registration.globs := by
  simp [globsOf, addNew_eraseDups]

theorem globsOf_concat_of_ne {history : List Registration} {registration : Registration}
    {id : String} (h : registration.id ≠ id) :
    globsOf (history ++ [registration]) id = globsOf history id := by
  simp [globsOf, h]

theorem globsOf_of_not_mem {history : List Registration} {id : String}
    (h : id ∉ history.map Registration.id) : globsOf history id = [] := by
  have hnone : (history.filter fun registration => registration.id = id) = [] := by
    rw [List.filter_eq_nil_iff]
    intro registration hmem
    simpa using fun heq : registration.id = id => h (heq ▸ List.mem_map_of_mem hmem)
  rw [globsOf, hnone]
  rfl

end Registration

namespace Registry

def add (registry : Registry) : Registration → Registry
  | .directory source globs => addDirectory registry source globs
  | .cache store => addCache registry store

theorem add_of_none {registry : Registry} {registration : Registration}
    (h : registry.get? registration.id = none) :
    add registry registration =
      registry.insert registration.id (registration.resource (addNew [] registration.globs)) := by
  cases registration with
  | directory source globs =>
      change registry.get? source.id = none at h
      rw [add, addDirectory, h]
      rfl
  | cache store =>
      change registry.get? store.id = none at h
      rw [add, addCache, OrderedMap.contains_eq_isSome, h]
      rfl

theorem add_of_some {registry : Registry} {registration : Registration} {known : List String}
    (h : registry.get? registration.id = some (registration.resource known)) :
    add registry registration =
      registry.insert registration.id
        (registration.resource (addNew known registration.globs)) := by
  cases registration with
  | directory source globs =>
      change registry.get? source.id = some (.directory source.path known) at h
      rw [add, addDirectory, h]
      rfl
  | cache store =>
      have hsame := OrderedMap.insert_of_get? h
      change registry.get? store.id = some (.cache store.name) at h
      rw [add, addCache, OrderedMap.contains_eq_isSome, h]
      exact hsame.symm

/-- The registry holds what was registered and nothing else, each id where it first came. -/
structure Records (registry : Registry) (history : List Registration) : Prop where
  keys : registry.keys = (history.map Registration.id).eraseDups
  resources : ∀ registration ∈ history, registry.get? registration.id =
    some (registration.resource (Registration.globsOf history registration.id))

namespace Records

variable {registry : Registry} {history : List Registration} {registration : Registration}

theorem empty : Records .empty [] where
  keys := rfl
  resources _ hmem := absurd hmem List.not_mem_nil

theorem get?_of_mem (h : Records registry history)
    (hmem : registration.id ∈ history.map Registration.id) :
    registry.get? registration.id =
      some (registration.resource (Registration.globsOf history registration.id)) := by
  obtain ⟨other, hother, hid⟩ := List.mem_map.mp hmem
  rw [← hid, h.resources other hother, Registration.resource_eq_of_id hid]

theorem mem_keys_iff (h : Records registry history) {id : String} :
    id ∈ registry.keys ↔ id ∈ history.map Registration.id := by
  rw [h.keys, List.mem_eraseDups]

/-- What is registered gets all globs that were given for its id so far. -/
theorem add_eq (h : Records registry history) (registration : Registration) :
    add registry registration = registry.insert registration.id (registration.resource
      (Registration.globsOf (history ++ [registration]) registration.id)) := by
  rw [Registration.globsOf_concat]
  by_cases hmem : registration.id ∈ history.map Registration.id
  · exact add_of_some (h.get?_of_mem hmem)
  · have hnone : registry.get? registration.id = none :=
      OrderedMap.get?_eq_none_iff.mpr fun hkey => hmem (h.mem_keys_iff.mp hkey)
    rw [Registration.globsOf_of_not_mem hmem, add_of_none hnone]

theorem add (h : Records registry history) (registration : Registration) :
    Records (registry.add registration) (history ++ [registration]) where
  keys := by
    rw [h.add_eq, OrderedMap.keys_insert, List.map_append, List.map_singleton, eraseDups_concat]
    simp only [OrderedMap.contains_iff, h.keys, List.mem_eraseDups]
  resources other hother := by
    -- what has the id of the new one gets its globs, too; the rest keeps what it had
    rw [h.add_eq, OrderedMap.get?_insert]
    by_cases hid : other.id = registration.id
    · rw [if_pos hid, hid, Registration.resource_eq_of_id hid]
    · rw [if_neg hid, Registration.globsOf_concat_of_ne (Ne.symm hid)]
      rcases List.mem_append.mp hother with hold | hnew
      · exact h.resources other hold
      · exact absurd (congrArg Registration.id (List.mem_singleton.mp hnew)) hid

theorem foldl_add (h : Records registry history) (more : List Registration) :
    Records (more.foldl Registry.add registry) (history ++ more) := by
  induction more generalizing registry history with
  | nil => simpa using h
  | cons first rest ih =>
      have hrest := ih (h.add first)
      rwa [List.append_assoc] at hrest

/-- What is known with all its globs is registered without any change. -/
theorem add_of_known (h : Records registry history) (hknown : registration.Known history) :
    registry.add registration = registry := by
  have hfound := h.get?_of_mem hknown.1
  rw [add_of_some hfound, addNew_of_subset hknown.2]
  exact OrderedMap.insert_of_get? hfound

theorem foldl_add_of_known (h : Records registry history) {more : List Registration}
    (hknown : ∀ registration ∈ more, registration.Known history) :
    more.foldl Registry.add registry = registry := by
  induction more with
  | nil => rfl
  | cons first rest ih =>
      rw [List.forall_mem_cons] at hknown
      rw [List.foldl_cons, h.add_of_known hknown.1, ih hknown.2]

end Records

end Registry

/-! ## What requests register -/

/-- What is mounted is registered without globs. -/
def Mountable.registration : Mountable → Registration
  | .directory source => .directory source []
  | .cache store => .cache store

theorem Registry.ensureAll_eq (registry : Registry) (items : List Mountable) :
    ensureAll registry items = (items.map Mountable.registration).foldl add registry := by
  have hitem : ∀ registry : Registry, ∀ item : Mountable,
      add registry item.registration = ensure registry item := by
    intro registry item
    cases item with
    | directory source => exact addDirectory_nil registry source
    | cache store => rfl
  rw [List.foldl_map, ensureAll]
  simp only [hitem]

/-- What the setting of a template registers. -/
def TemplateSetting.registrations : TemplateSetting → List Registration
  | .mount source _ => [.directory source []]
  | .mountCache store _ => [.cache store]
  | _ => []

theorem TemplateSetting.registerIn_eq (registry : Registry) (setting : TemplateSetting) :
    setting.registerIn registry = setting.registrations.foldl Registry.add registry := by
  cases setting <;> rfl

namespace Request

/-- What a request registers: nothing if it is refused or passed over. -/
def registrations (pipeline : Pipeline) : Request → List Registration
  | .addDirectory path globs =>
      match Directory.ofPath path with
      | .ok source => [.directory source globs]
      | .error _ => []
  | .addCache name =>
      match Cache.ofName name with
      | .ok store => [.cache store]
      | .error _ => []
  | .setTemplate name setting =>
      match (pipeline.templates.get? name).map (setting.apply name) with
      | some (.ok _) => setting.registrations
      | _ => []
  | request => (request.mounts pipeline).map Mountable.registration

/-- Whether the request does nothing but to register a directory or a cache. -/
def registersOnly : Request → Bool
  | .addDirectory _ _ | .addCache _ => true
  | _ => false

end Request

/-- What is ready-made mounts nothing. -/
theorem Preset.mountable?_eq_none (preset : Preset) {setting : TaskSetting}
    (h : setting ∈ preset.settings) : setting.mountable? = none := by
  rcases Preset.eq_of_mem_settings h with rfl | rfl | ⟨paths, rfl⟩ <;> rfl

namespace Pipeline

variable {pipeline : Pipeline}

theorem resources_register (named : Named) (step : Step) (pipeline : Pipeline) :
    ((register named step).perform pipeline).2.resources = pipeline.resources := by
  rw [register, Build.perform_bind, Build.perform_get]
  dsimp only
  split
  · rfl
  · split <;> rfl

theorem resources_addTemplate (name : String) (pipeline : Pipeline) :
    ((addTemplate name).perform pipeline).2.resources = pipeline.resources := by
  obtain ⟨templates, hnext⟩ := perform_addTemplate name pipeline
  rw [hnext]

theorem resources_setTask {setting : TaskSetting} (h : setting.mountable? = none) (name : String)
    (pipeline : Pipeline) :
    ((setTask name setting).perform pipeline).2.resources = pipeline.resources := by
  cases hindex : pipeline.index? name with
  | none => rw [perform_setTask_of_unknown hindex]
  | some place =>
      have hset := (mounted_configure pipeline place (.ofTask setting)).resources
      have hnothing : pipeline.mountedAt place (.ofTask setting) = [] := by
        rw [mountedAt, StepSetting.mountables, h]
        split <;> rfl
      rw [← perform_setTask hindex, Build.perform_map, hnothing] at hset
      exact hset

theorem resources_addPreset (preset : Preset) (pipeline : Pipeline) :
    ((addPreset preset).perform pipeline).2.resources = pipeline.resources := by
  refine addPreset_leaves Pipeline.resources (fun other => ?_)
    (fun setting hsetting other => ?_) pipeline
  · rw [addTask, Build.perform_discard, resources_register]
  · exact resources_setTask (preset.mountable?_eq_none hsetting) _ other

theorem resources_chain (stages : List Stage) (pipeline : Pipeline) :
    ((chain stages).perform pipeline).2.resources = pipeline.resources :=
  chain_leaves Pipeline.resources (fun _ _ => rfl) stages pipeline

end Pipeline

namespace Request

variable {pipeline : Pipeline}

/-- A request that sets up a step registers what it mounts. -/
theorem resources_answer_of_target {request : Request} {place : Nat} {setting : StepSetting}
    (h : request.target? pipeline = some (place, setting)) :
    (request.answer.perform pipeline).2.resources =
      ((request.mounts pipeline).map Mountable.registration).foldl Registry.add
        pipeline.resources := by
  rw [perform_answer h, mounts, h, (Pipeline.mounted_configure pipeline place setting).resources]
  exact Registry.ensureAll_eq _ _

/-- Whatever is requested, the registry gets what the request registers and nothing else. -/
theorem resources_answer (pipeline : Pipeline) (request : Request) :
    (request.answer.perform pipeline).2.resources =
      (request.registrations pipeline).foldl Registry.add pipeline.resources := by
  cases request with
  | addTask name =>
      rw [answer, Build.perform_map]
      exact Pipeline.resources_register .task _ pipeline
  | addGate name =>
      rw [answer, Build.perform_map]
      exact Pipeline.resources_register .gate _ pipeline
  | addTemplate name =>
      rw [answer, Build.perform_map]
      exact Pipeline.resources_addTemplate name pipeline
  | addDirectory path globs =>
      rw [answer, Build.perform_map, Pipeline.addDirectory, Build.perform_bind,
        Build.perform_ofExcept, registrations]
      cases Directory.ofPath path <;> rfl
  | addCache name =>
      rw [answer, Build.perform_map, Pipeline.addCache, Build.perform_bind,
        Build.perform_ofExcept, registrations]
      cases Cache.ofName name <;> rfl
  | addPreset preset =>
      rw [answer, Build.perform_map]
      exact Pipeline.resources_addPreset preset pipeline
  | setTemplate name setting =>
      rw [answer, Build.perform_map, registrations]
      cases htemplate : pipeline.templates.get? name with
      | none =>
          rw [Pipeline.perform_setTemplate_of_none htemplate]
          rfl
      | some template =>
          rw [Pipeline.perform_setTemplate_of_some htemplate, Option.map_some]
          cases setting.apply name template with
          | error refusal => rfl
          | ok next => exact TemplateSetting.registerIn_eq pipeline.resources setting
  | chain stages =>
      rw [answer, Build.perform_map]
      exact Pipeline.resources_chain stages pipeline
  | setTask place setting => exact resources_answer_of_target rfl
  | setGate place setting => exact resources_answer_of_target rfl
  | reopenTask name setting =>
      cases hindex : pipeline.index? name with
      | none =>
          rw [answer, Build.perform_map, Pipeline.perform_setTask_of_unknown hindex]
          simp [registrations, mounts, target?, hindex]
      | some place =>
          exact resources_answer_of_target (by rw [target?, hindex, Option.map_some])
  | reopenGate name setting =>
      cases hindex : pipeline.index? name with
      | none =>
          rw [answer, Build.perform_map, Pipeline.perform_setGate_of_unknown hindex]
          simp [registrations, mounts, target?, hindex]
      | some place =>
          exact resources_answer_of_target (by rw [target?, hindex, Option.map_some])

/-- The calls that register directories and caches leave all but the registry alone. -/
theorem eq_of_registersOnly {request : Request} (h : request.registersOnly = true)
    (hresources : (request.answer.perform pipeline).2.resources = pipeline.resources) :
    (request.answer.perform pipeline).2 = pipeline := by
  have hrest : ∃ resources, (request.answer.perform pipeline).2 =
      { pipeline with resources } := by
    cases request with
    | addDirectory path globs =>
        rw [answer, Build.perform_map]
        exact Pipeline.perform_addDirectory path globs pipeline
    | addCache name =>
        rw [answer, Build.perform_map]
        exact Pipeline.perform_addCache name pipeline
    | _ => cases h
  obtain ⟨resources, hnext⟩ := hrest
  rw [hnext] at hresources
  have hsame : resources = pipeline.resources := hresources
  rw [hnext, hsame]

end Request

/-! ## Histories -/

namespace Pipeline

variable {pipeline : Pipeline}

/-- All that is registered when the requests are served one after the other. -/
def registrations (pipeline : Pipeline) : List Request → List Registration
  | [] => []
  | request :: rest =>
      request.registrations pipeline ++ (request.answer.perform pipeline).2.registrations rest

theorem resources_serve (pipeline : Pipeline) (requests : List Request) :
    (pipeline.serve requests).2.resources =
      (pipeline.registrations requests).foldl Registry.add pipeline.resources := by
  induction requests generalizing pipeline with
  | nil => rfl
  | cons request rest ih =>
      rw [registrations, List.foldl_append, ← Request.resources_answer]
      exact ih _

end Pipeline

end CiPipeline
