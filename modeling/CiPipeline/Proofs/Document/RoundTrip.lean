import CiPipeline.Document.Reader
import CiPipeline.Document.Writer
import CiPipeline.Proofs.Json.Record
import Mathlib.Data.Option.Basic

/-!
# Documents are read as they were written

Every record of a document is faithful: its reader knows the names under which its members are
written, and a member is left out for the default of its field only. Main statement: a document is
read back from its text.
-/

namespace CiPipeline

open Json

/-! ## Resources -/

/-- The entry of a resource stays within what is asked of tagged entries. -/
theorem Resource.admitted (resource : Resource) :
    (resource.toJson.isSound && resource.toJson.depth ≤ maxDepth) = true := by
  cases resource with
  | cache name => rfl
  | directory path globs =>
      have hsound := isSound_strings globs
      have hdepth := depth_strings globs
      by_cases h : globs.isEmpty = true
      · simp [toJson, ofMembers, members, written, always, ifItems, ofMember, ofString, h, isSound,
          isSound.allSoundMembers, depth, depth.memberDepths, maxDepth]
      · simp [toJson, ofMembers, members, written, always, ifItems, ofMember, ofString, h, isSound,
          isSound.allSoundMembers, depth, depth.memberDepths, maxDepth, hsound, hdepth]

theorem Resource.ofJson?_toJson (resource : Resource) :
    ofJson? resource.toJson = some resource := by
  have hkind : Vocabulary.find? (Vocabulary.word resource.kind) = some resource.kind :=
    LawfulVocabulary.find?_word resource.kind
  have htag : "type" ∉ resource.members.map Prod.fst := by
    cases resource <;> simp [members, always, ifItems]
  have htagged : tagged? "type" resource.toJson =
      some (Vocabulary.word resource.kind, ofMembers resource.members) :=
    tagged?_ofMembers _ htag
  rw [ofJson?, (Option.guard_eq_some' ()).mpr resource.admitted, htagged]
  cases resource with
  | directory path globs =>
      obtain ⟨record, hrecord, hfields⟩ :=
        record?_ofMembers (directory path globs).members ["path", "globs"] rfl
          (by decide)
      simp only [members, always, ifItems, List.forall_mem_cons] at hfields
      simp only [kind] at hkind ⊢
      simp [-List.isEmpty_iff, hkind, hrecord, Record.required, Record.withDefault, hfields,
        given_some faithful_string, orDefault_items faithful_string]
  | cache name =>
      obtain ⟨record, hrecord, hfields⟩ :=
        record?_ofMembers (cache name).members ["name"] rfl (by decide)
      simp only [members, always, List.forall_mem_cons] at hfields
      simp only [kind] at hkind ⊢
      simp [hkind, hrecord, Record.required, hfields, given_some faithful_string]

theorem Resource.faithful : Faithful ofJson? toJson where
  decode_encode := ofJson?_toJson
  ne_null _ := Json.noConfusion
  readable resource := by
    apply readable_ofMembers
    cases resource with
    | directory path globs =>
        simp [members, readable_always faithful_member, readable_always faithful_string,
          readable_ifItems faithful_string]
    | cache name =>
        simp [members, readable_always faithful_member, readable_always faithful_string]

/-! ## Parts of tasks -/

theorem Mount.faithful : Faithful Mount.ofJson? Mount.toJson := by
  apply faithful_ofMembers
  · intro mount
    obtain ⟨record, hrecord, hfields⟩ :=
      record?_ofMembers mount.members ["resource", "path", "type"] rfl (by decide)
    simp only [members, always, List.forall_mem_cons] at hfields
    rw [ofJson?, hrecord]
    simp only [Record.required, hfields, Option.bind_eq_bind, Option.bind_some, Option.pure_def,
      given_some faithful_string, given_some faithful_member]
  · intro mount
    simp [members, readable_always faithful_string, readable_always faithful_member]

theorem Artifact.faithful : Faithful Artifact.ofJson? Artifact.toJson := by
  apply faithful_ofMembers
  · intro artifact
    obtain ⟨record, hrecord, hfields⟩ :=
      record?_ofMembers artifact.members ["from_task", "output", "dest"] rfl (by decide)
    simp only [members, always, List.forall_mem_cons] at hfields
    rw [ofJson?, hrecord]
    simp only [Record.required, hfields, Option.bind_eq_bind, Option.bind_some, Option.pure_def,
      given_some faithful_string]
  · intro artifact
    simp [members, readable_always faithful_string]

theorem SecretReference.faithful : Faithful SecretReference.ofJson? SecretReference.toJson := by
  apply faithful_ofMembers
  · intro reference
    obtain ⟨record, hrecord, hfields⟩ :=
      record?_ofMembers reference.members ["name", "source", "key"] rfl (by decide)
    simp only [members, always, List.forall_mem_cons] at hfields
    rw [ofJson?, hrecord]
    simp only [Record.required, hfields, Option.bind_eq_bind, Option.bind_some, Option.pure_def,
      given_some faithful_string, given_some faithful_member]
  · intro reference
    simp [members, readable_always faithful_string, readable_always faithful_member]

theorem Service.faithful : Faithful Service.ofJson? Service.toJson := by
  apply faithful_ofMembers
  · intro service
    obtain ⟨record, hrecord, hfields⟩ :=
      record?_ofMembers service.members ["image", "name"] rfl (by decide)
    simp only [members, always, List.forall_mem_cons] at hfields
    rw [ofJson?, hrecord]
    simp only [Record.required, hfields, Option.bind_eq_bind, Option.bind_some, Option.pure_def,
      given_some faithful_string]
  · intro service
    simp [members, readable_always faithful_string]

theorem ClusterRequest.faithful : Faithful ClusterRequest.ofJson? ClusterRequest.toJson := by
  apply faithful_ofMembers
  · intro request
    obtain ⟨record, hrecord, hfields⟩ :=
      record?_ofMembers request.members ["memory", "cpu", "gpu", "raw"] rfl (by decide)
    simp only [members, ifSome, ifPositive, List.forall_mem_cons] at hfields
    rw [ofJson?, hrecord]
    simp only [Record.optional, Record.withDefault, hfields, Option.bind_eq_bind, Option.bind_some,
      Option.pure_def, nullable_map faithful_string, orDefault_uint32]
  · intro request
    simp [members, readable_ifSome faithful_string, readable_ifPositive]

theorem Capability.faithful : Faithful Capability.ofJson? Capability.toJson := by
  apply faithful_ofMembers
  · intro capability
    obtain ⟨record, hrecord, hfields⟩ :=
      record?_ofMembers capability.members ["name", "value"] rfl (by decide)
    simp only [members, always, ifSome, List.forall_mem_cons] at hfields
    rw [ofJson?, hrecord]
    simp only [Record.required, Record.optional, hfields, Option.bind_eq_bind, Option.bind_some,
      Option.pure_def, given_some faithful_string, nullable_map faithful_string]
  · intro capability
    simp [members, readable_always faithful_string, readable_ifSome faithful_string]

theorem Semantics.faithful : Faithful Semantics.ofJson? Semantics.toJson := by
  apply faithful_ofMembers
  · intro semantics
    obtain ⟨record, hrecord, hfields⟩ :=
      record?_ofMembers semantics.members ["covers", "intent", "criticality"] rfl (by decide)
    simp only [members, ifItems, ifSome, List.forall_mem_cons] at hfields
    rw [ofJson?, hrecord]
    simp only [Record.withDefault, Record.optional, hfields, Option.bind_eq_bind, Option.bind_some,
      Option.pure_def, orDefault_items faithful_string, nullable_map faithful_string,
      nullable_map faithful_member]
  · intro semantics
    simp [members, readable_ifItems faithful_string, readable_ifSome faithful_string,
      readable_ifSome faithful_member]

theorem Hooks.faithful : Faithful Hooks.ofJson? Hooks.toJson := by
  apply faithful_ofMembers
  · intro hooks
    obtain ⟨record, hrecord, hfields⟩ :=
      record?_ofMembers hooks.members ["on_fail", "select"] rfl (by decide)
    simp only [members, ifSome, List.forall_mem_cons] at hfields
    rw [ofJson?, hrecord]
    simp only [Record.optional, hfields, Option.bind_eq_bind, Option.bind_some, Option.pure_def,
      nullable_map faithful_member]
  · intro hooks
    simp [members, readable_ifSome faithful_member]

theorem Gate.faithful : Faithful Gate.ofJson? Gate.toJson := by
  apply faithful_ofMembers
  · intro gate
    obtain ⟨record, hrecord, hfields⟩ :=
      record?_ofMembers gate.members ["strategy", "timeout", "message", "env_var", "file_path"]
        rfl (by decide)
    simp only [members, always, ifPositive, ifSome, List.forall_mem_cons] at hfields
    rw [ofJson?, hrecord]
    simp only [Record.required, Record.withDefault, Record.optional, hfields, Option.bind_eq_bind,
      Option.bind_some, Option.pure_def, given_some faithful_member, orDefault_uint64,
      nullable_map faithful_string]
  · intro gate
    simp [members, readable_always faithful_member, readable_ifPositive,
      readable_ifSome faithful_string]

/-! ## Tasks and documents -/

theorem TaskEntry.faithful : Faithful TaskEntry.ofJson? TaskEntry.toJson := by
  apply faithful_ofMembers
  · intro task
    obtain ⟨record, hrecord, hfields⟩ :=
      record?_ofMembers task.members fields rfl (by decide)
    simp only [members, always, ifSome, ifItems, ifEntries, ifPositive, List.forall_mem_cons]
      at hfields
    rw [ofJson?, hrecord, Option.bind_eq_bind, Option.bind_some]
    -- Every read is settled where it stands, and the reads are chained only then.
    simp only [Record.required, Record.optional, Record.withDefault, hfields]
    simp only [given_some faithful_string, nullable_map faithful_string,
      nullable_map ClusterRequest.faithful, nullable_map Semantics.faithful,
      nullable_map Hooks.faithful, nullable_map Gate.faithful, orDefault_items faithful_string,
      orDefault_items Mount.faithful, orDefault_items Artifact.faithful,
      orDefault_items SecretReference.faithful, orDefault_items Service.faithful,
      orDefault_items Capability.faithful, orDefault_entries faithful_string,
      orDefault_entries (faithful_list faithful_string), orDefault_uint32, orDefault_uint64]
    rfl
  · intro task
    simp [members, readable_always faithful_string, readable_ifSome faithful_string,
      readable_ifSome ClusterRequest.faithful, readable_ifSome Semantics.faithful,
      readable_ifSome Hooks.faithful, readable_ifSome Gate.faithful,
      readable_ifItems faithful_string, readable_ifItems Mount.faithful,
      readable_ifItems Artifact.faithful, readable_ifItems SecretReference.faithful,
      readable_ifItems Service.faithful, readable_ifItems Capability.faithful,
      readable_ifEntries faithful_string, readable_ifEntries (faithful_list faithful_string),
      readable_ifPositive]

theorem Document.faithful : Faithful Document.ofJson? Document.toJson := by
  apply faithful_ofMembers
  · intro document
    obtain ⟨record, hrecord, hfields⟩ :=
      record?_ofMembers document.members ["version", "resources", "tasks"] rfl (by decide)
    simp only [members, always, ifEntries, List.forall_mem_cons] at hfields
    rw [ofJson?, hrecord]
    simp only [Record.required, Record.withDefault, hfields, Option.bind_eq_bind, Option.bind_some,
      Option.pure_def, given_some faithful_member, orDefault_entries Resource.faithful,
      given_some (faithful_list TaskEntry.faithful)]
  · intro document
    simp [members, readable_always faithful_member, readable_ifEntries Resource.faithful,
      readable_always (faithful_list TaskEntry.faithful)]

theorem Document.parse?_text (document : Document) : parse? document.text = some document := by
  rw [parse?, text, Json.parse?_compact (faithful.readable document), Option.bind_some]
  exact faithful.decode_encode document

/-- Every document is read back from its text with all its lists and maps in their order; and a
document that was read from any text can be written and read again without a change. -/
theorem Document.text_faithful :
    (∀ document : Document, parse? document.text = some document) ∧
      ∀ text, ((parse? text).bind fun document => parse? document.text) = parse? text := by
  refine ⟨parse?_text, fun text => ?_⟩
  cases parse? text with
  | none => rfl
  | some document => rw [Option.bind_some, parse?_text]

end CiPipeline
