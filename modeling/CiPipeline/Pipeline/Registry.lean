import CiPipeline.Document.Basic
import CiPipeline.Pipeline.Error
import CiPipeline.Text.Blank

/-!
# Directories, caches and the registry of resources

A directory or a cache is checked when it is made, so that whoever has one can mount it anywhere.
The ids of directories start with a prefix that no cache may use; an id never stands for both.
-/

namespace CiPipeline

structure Directory where
  path : String
  notBlank : Text.allBlank path.toList = false
deriving DecidableEq

namespace Directory

/-- The directory in which the engine starts. -/
def current : Directory := ⟨".", by decide⟩

def ofPath (path : String) : Except Refusal Directory :=
  if h : Text.allBlank path.toList = false then .ok ⟨path, h⟩ else .error (.emptyName .directory)

def id (directory : Directory) : String := Refusal.reservedPrefix ++ directory.path

def mountAt (directory : Directory) (path : String) : Mount := ⟨directory.id, path, .directory⟩

end Directory

structure Cache where
  name : String
  notBlank : Text.allBlank name.toList = false
  notReserved : Refusal.reservedPrefix.toList.isPrefixOf name.toList = false
deriving DecidableEq

namespace Cache

def ofName (name : String) : Except Refusal Cache :=
  if hb : Text.allBlank name.toList = false then
    if hr : Refusal.reservedPrefix.toList.isPrefixOf name.toList = false then .ok ⟨name, hb, hr⟩
    else .error (.reservedCacheName name)
  else .error (.emptyName .cache)

def id (cache : Cache) : String := cache.name

def mountAt (cache : Cache) (path : String) : Mount := ⟨cache.id, path, .cache⟩

/-- No cache has the id of a directory. -/
theorem id_ne (cache : Cache) (directory : Directory) : cache.id ≠ directory.id := by
  intro h
  have hr := cache.notReserved
  have hn : cache.name = Refusal.reservedPrefix ++ directory.path := h
  rw [hn, String.toList_append] at hr
  have : Refusal.reservedPrefix.toList.isPrefixOf
      (Refusal.reservedPrefix.toList ++ directory.path.toList) = true := by
    rw [List.isPrefixOf_iff_prefix]
    exact List.prefix_append ..
  rw [this] at hr
  exact absurd hr (by decide)

end Cache

/-- The items of a list, with those of a second one that are not there yet at the end. -/
def addNew [BEq α] (known more : List α) : List α :=
  more.foldl (fun known item => if known.contains item then known else known ++ [item]) known

/-- The resources of a pipeline by their ids, in order of registration. -/
abbrev Registry := OrderedMap Resource

namespace Registry

/-- Registers a directory. One that is known keeps its place and its globs and gets the new ones. -/
def addDirectory (registry : Registry) (directory : Directory) (globs : List String) : Registry :=
  match registry.get? directory.id with
  | none => registry.insert directory.id (.directory directory.path (addNew [] globs))
  | some (.directory path known) =>
      registry.insert directory.id (.directory path (addNew known globs))
  | some (.cache _) => registry

/-- Registers a cache, unless its name is known. -/
def addCache (registry : Registry) (cache : Cache) : Registry :=
  if registry.contains cache.id then registry else registry.insert cache.id (.cache cache.name)

end Registry

end CiPipeline
