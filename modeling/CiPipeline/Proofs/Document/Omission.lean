import CiPipeline.Document.Reader
import CiPipeline.Document.Writer
import CiPipeline.Proofs.Json.Record
import Mathlib.Data.List.Nodup

/-!
# What documents leave out

An optional member that would say nothing is left out. Which members are optional hangs on the kind
of the record that they are in, and the records are found in the value of a document along the
members that lead to them. Main statement: where a document itself has no empty texts and no blank
blocks, no optional member of its value says nothing, at any depth.
-/

namespace CiPipeline

open Json

namespace Json

/-- A value that says nothing: an empty text, no items, no entries, or zero. -/
inductive IsZero : Json → Prop where
  | text : IsZero (.string (some ""))
  | items : IsZero (.array [])
  | entries : IsZero (.object [])
  | number {text : List Char} (h : natural? (.number text) = some 0) : IsZero (.number text)

theorem isZero_string {content : Content} : (string content).IsZero ↔ content = some "" :=
  ⟨fun h => by cases h; rfl, fun h => h ▸ .text⟩

theorem isZero_array {items : List Json} : (array items).IsZero ↔ items = [] :=
  ⟨fun h => by cases h; rfl, fun h => h ▸ .items⟩

theorem isZero_object {members : List (Content × Json)} :
    (object members).IsZero ↔ members = [] :=
  ⟨fun h => by cases h; rfl, fun h => h ▸ .entries⟩

theorem isZero_ofNat {n : Nat} : (ofNat n).IsZero ↔ n = 0 := by
  constructor
  · intro h
    cases h with
    | number h => exact Option.some.inj ((natural?_ofNat n).symm.trans h)
  · intro h
    exact .number (h ▸ natural?_ofNat n)

end Json

/-! ## Records with optional members -/

inductive RecordKind where
  | document
  | resource
  | task
  | cluster
  | capability
  | semantics
  | hooks
  | gate
deriving DecidableEq

/-- The members that a record of a kind may do without. -/
def RecordKind.optional : RecordKind → List String
  | .document => ["resources"]
  | .resource => ["globs"]
  | .task =>
      ["command", "container", "workdir", "env", "mounts", "inputs", "task_inputs", "outputs",
        "depends_on", "when", "secrets", "secret_refs", "matrix", "services", "retry", "timeout",
        "target", "k8s", "requires", "provides", "needs", "semantic", "ai_hooks", "gate"]
  | .cluster => ["memory", "cpu", "gpu", "raw"]
  | .capability => ["value"]
  | .semantics => ["covers", "intent", "criticality"]
  | .hooks => ["on_fail", "select"]
  | .gate => ["timeout", "message", "env_var", "file_path"]

namespace Json

/-- A record of a kind occurs in the value of a document, with the members that it has there. -/
inductive Occurs (root : Json) : RecordKind → List (Content × Json) → Prop where
  | document {members} (h : root = .object members) : Occurs root .document members
  | resource {members entries id record} (h : Occurs root .document members)
      (hentries : (some "resources", .object entries) ∈ members)
      (hrecord : (id, .object record) ∈ entries) : Occurs root .resource record
  | task {members items record} (h : Occurs root .document members)
      (hitems : (some "tasks", .array items) ∈ members) (hrecord : .object record ∈ items) :
      Occurs root .task record
  | cluster {members record} (h : Occurs root .task members)
      (hrecord : (some "k8s", .object record) ∈ members) : Occurs root .cluster record
  | capability {members items record} (h : Occurs root .task members)
      (hitems : (some "provides", .array items) ∈ members) (hrecord : .object record ∈ items) :
      Occurs root .capability record
  | semantics {members record} (h : Occurs root .task members)
      (hrecord : (some "semantic", .object record) ∈ members) : Occurs root .semantics record
  | hooks {members record} (h : Occurs root .task members)
      (hrecord : (some "ai_hooks", .object record) ∈ members) : Occurs root .hooks record
  | gate {members record} (h : Occurs root .task members)
      (hrecord : (some "gate", .object record) ∈ members) : Occurs root .gate record

/-- An optional member is present and says nothing. -/
structure Idle (root : Json) (kind : RecordKind) (name : String) : Prop where
  optional : name ∈ kind.optional
  present : ∃ members value, Occurs root kind members ∧ (some name, value) ∈ members ∧ value.IsZero

/-! ## Written members -/

/-- The members of a record as they stand in its object. -/
def fields (members : List Member) : List (Content × Json) :=
  (written members).map fun (name, value) => (some name, value)

theorem mem_fields {members : List Member} {name : String} {value : Json} :
    (some name, value) ∈ fields members ↔ (name, some value) ∈ members := by
  simp only [fields, written, List.mem_map, List.mem_filterMap, Prod.mk.injEq, Option.some.injEq]
  constructor
  · rintro ⟨field, ⟨member, hmember, hfield⟩, rfl, rfl⟩
    obtain ⟨found, hfound, rfl⟩ := Option.map_eq_some_iff.mp hfield
    rwa [← hfound]
  · intro h
    exact ⟨(name, value), ⟨_, h, rfl⟩, rfl, rfl⟩

/-- Where the names of members are distinct, a name settles the member. -/
theorem eq_of_mem_members {members : List Member} (h : (members.map Prod.fst).Nodup)
    {member : Member} (hmember : member ∈ members) {value : Option Json}
    (hvalue : (member.1, value) ∈ members) : value = member.2 :=
  congrArg Prod.snd (List.inj_on_of_nodup_map h hvalue hmember rfl)

/-! ## Members that say something -/

/-- The member is left out, or it says something. -/
def Member.Telling (member : Member) : Prop := ∀ value ∈ member.2, ¬ value.IsZero

theorem telling_ifItems (name : String) (encode : α → Json) (items : List α) :
    (ifItems name encode items).Telling := by
  intro json hjson hzero
  obtain ⟨hitems, ⟨⟩⟩ := Option.ite_none_left_eq_some.mp hjson
  rw [ofList, isZero_array, List.map_eq_nil_iff] at hzero
  exact hitems (List.isEmpty_iff.mpr hzero)

theorem telling_ifEntries (name : String) (encode : α → Json) (map : OrderedMap α) :
    (ifEntries name encode map).Telling := by
  intro json hjson hzero
  obtain ⟨hentries, ⟨⟩⟩ := Option.ite_none_left_eq_some.mp hjson
  rw [ofMap, isZero_object, List.map_eq_nil_iff] at hzero
  exact hentries (List.isEmpty_iff.mpr hzero)

theorem telling_ifPositive (name : String) (n : Nat) : (ifPositive name n).Telling := by
  intro json hjson hzero
  obtain ⟨hn, ⟨⟩⟩ := Option.ite_none_left_eq_some.mp hjson
  exact hn (isZero_ofNat.mp hzero)

theorem telling_ifSome {name : String} {encode : α → Json} {value : Option α}
    (h : ∀ x ∈ value, ¬ (encode x).IsZero) : (ifSome name encode value).Telling := by
  intro json hjson hzero
  obtain ⟨x, hx, rfl⟩ := Option.map_eq_some_iff.mp hjson
  exact h x hx hzero

theorem telling_text {name : String} {text : Option String} (h : text ≠ some "") :
    (ifSome name ofString text).Telling := by
  refine telling_ifSome fun given hgiven hzero => h ?_
  rw [ofString, isZero_string, Option.some_inj] at hzero
  rwa [hzero] at hgiven

theorem telling_word [Vocabulary α] (hwords : ∀ member : α, Vocabulary.word member ≠ "")
    (name : String) (choice : Option α) : (ifSome name ofMember choice).Telling := by
  refine telling_ifSome fun member _ hzero => hwords member ?_
  rwa [ofMember, ofString, isZero_string, Option.some_inj] at hzero

/-- A block that says nothing has none of its members. -/
theorem missing_of_isZero {members : List Member} (h : (ofMembers members).IsZero) {member : Member}
    (hmember : member ∈ members) : member.2 = none := by
  by_contra hthere
  obtain ⟨value, hvalue⟩ := Option.ne_none_iff_exists'.mp hthere
  have hfield : (some member.1, value) ∈ fields members := mem_fields.mpr (hvalue ▸ hmember)
  have hnil : fields members = [] := isZero_object.mp h
  rw [hnil] at hfield
  cases hfield

/-- The optional members of a record say something where they are there. -/
def Sparse (kind : RecordKind) (record : List Member) : Prop :=
  ∀ member ∈ record, member.1 ∈ kind.optional → member.Telling

end Json

/-! ## The records of a document -/

/-- A document has a record of a kind: itself, a resource, a task or a part of a task. -/
def Document.HasRecord (document : Document) (record : List Member) : RecordKind → Prop
  | .document => record = document.members
  | .resource => ∃ resource : Resource,
      record = always "type" (ofMember resource.kind) :: resource.members
  | .task => ∃ task ∈ document.tasks, record = task.members
  | .cluster => ∃ task ∈ document.tasks, ∃ request ∈ task.cluster, record = request.members
  | .capability => ∃ task ∈ document.tasks, ∃ capability ∈ task.provides,
      record = capability.members
  | .semantics => ∃ task ∈ document.tasks, ∃ semantics ∈ task.semantics,
      record = semantics.members
  | .hooks => ∃ task ∈ document.tasks, ∃ hooks ∈ task.hooks, record = hooks.members
  | .gate => ∃ task ∈ document.tasks, ∃ gate ∈ task.gate, record = gate.members

theorem Document.nodup_members (document : Document) :
    (document.members.map Prod.fst).Nodup := by
  change ["version", "resources", "tasks"].Nodup
  decide

theorem TaskEntry.nodup_members (task : TaskEntry) : (task.members.map Prod.fst).Nodup := by
  change TaskEntry.fields.Nodup
  decide

/-- The member of an optional part is present exactly if the part is there. -/
theorem TaskEntry.part_of_mem {task : TaskEntry} {name : String} {encode : α → Json}
    {part : Option α} (hpart : ifSome name encode part ∈ task.members) {value : Json}
    (hvalue : (name, some value) ∈ task.members) : ∃ x ∈ part, encode x = value :=
  Option.map_eq_some_iff.mp (eq_of_mem_members task.nodup_members hpart hvalue).symm

theorem Json.Occurs.hasRecord {document : Document} {kind : RecordKind}
    {members : List (Content × Json)} (h : Occurs document.toJson kind members) :
    ∃ record, document.HasRecord record kind ∧ members = fields record := by
  induction h with
  | document h =>
      cases h
      exact ⟨document.members, rfl, rfl⟩
  | resource _ hentries hrecord ih =>
      obtain ⟨record, rfl, rfl⟩ := ih
      rw [mem_fields] at hentries
      have hmember : ifEntries "resources" Resource.toJson document.resources ∈
          document.members := by simp [Document.members]
      have hvalue := eq_of_mem_members document.nodup_members hmember hentries
      obtain ⟨-, ⟨⟩⟩ := Option.ite_none_left_eq_some.mp hvalue.symm
      obtain ⟨⟨id, resource⟩, -, ⟨⟩⟩ := List.mem_map.mp hrecord
      exact ⟨_, ⟨resource, rfl⟩, rfl⟩
  | task _ hitems hrecord ih =>
      obtain ⟨record, rfl, rfl⟩ := ih
      rw [mem_fields] at hitems
      have hmember : always "tasks" (ofList TaskEntry.toJson document.tasks) ∈
          document.members := by simp [Document.members]
      cases eq_of_mem_members document.nodup_members hmember hitems
      obtain ⟨task, htask, ⟨⟩⟩ := List.mem_map.mp hrecord
      exact ⟨_, ⟨task, htask, rfl⟩, rfl⟩
  | capability _ hitems hrecord ih =>
      obtain ⟨record, ⟨task, htask, rfl⟩, rfl⟩ := ih
      rw [mem_fields] at hitems
      have hmember : ifItems "provides" Capability.toJson task.provides ∈ task.members := by
        simp [TaskEntry.members]
      have hvalue := eq_of_mem_members task.nodup_members hmember hitems
      obtain ⟨-, ⟨⟩⟩ := Option.ite_none_left_eq_some.mp hvalue.symm
      obtain ⟨capability, hcapability, ⟨⟩⟩ := List.mem_map.mp hrecord
      exact ⟨_, ⟨task, htask, capability, hcapability, rfl⟩, rfl⟩
  | cluster _ hrecord ih =>
      obtain ⟨record, ⟨task, htask, rfl⟩, rfl⟩ := ih
      have hmember : ifSome "k8s" ClusterRequest.toJson task.cluster ∈ task.members := by
        simp [TaskEntry.members]
      obtain ⟨request, hrequest, ⟨⟩⟩ := TaskEntry.part_of_mem hmember (mem_fields.mp hrecord)
      exact ⟨_, ⟨task, htask, request, hrequest, rfl⟩, rfl⟩
  | semantics _ hrecord ih =>
      obtain ⟨record, ⟨task, htask, rfl⟩, rfl⟩ := ih
      have hmember : ifSome "semantic" Semantics.toJson task.semantics ∈ task.members := by
        simp [TaskEntry.members]
      obtain ⟨semantics, hsemantics, ⟨⟩⟩ := TaskEntry.part_of_mem hmember (mem_fields.mp hrecord)
      exact ⟨_, ⟨task, htask, semantics, hsemantics, rfl⟩, rfl⟩
  | hooks _ hrecord ih =>
      obtain ⟨record, ⟨task, htask, rfl⟩, rfl⟩ := ih
      have hmember : ifSome "ai_hooks" Hooks.toJson task.hooks ∈ task.members := by
        simp [TaskEntry.members]
      obtain ⟨hooks, hhooks, ⟨⟩⟩ := TaskEntry.part_of_mem hmember (mem_fields.mp hrecord)
      exact ⟨_, ⟨task, htask, hooks, hhooks, rfl⟩, rfl⟩
  | gate _ hrecord ih =>
      obtain ⟨record, ⟨task, htask, rfl⟩, rfl⟩ := ih
      have hmember : ifSome "gate" Gate.toJson task.gate ∈ task.members := by
        simp [TaskEntry.members]
      obtain ⟨gate, hgate, ⟨⟩⟩ := TaskEntry.part_of_mem hmember (mem_fields.mp hrecord)
      exact ⟨_, ⟨task, htask, gate, hgate, rfl⟩, rfl⟩

/-! ## Records without idle members -/

/-- Every text that is given says something, and something is given. -/
structure ClusterRequest.Worded (request : ClusterRequest) : Prop where
  memory : request.memory ≠ some ""
  cpu : request.cpu ≠ some ""
  raw : request.raw ≠ some ""
  asks : request ≠ .unset

structure Semantics.Worded (semantics : Semantics) : Prop where
  intent : semantics.intent ≠ some ""
  describes : semantics ≠ .unset

/-- Every text and every block that is given says something; of gates nothing is asked. -/
structure TaskEntry.Worded (task : TaskEntry) : Prop where
  command : task.command ≠ some ""
  container : task.container ≠ some ""
  workdir : task.workdir ≠ some ""
  condition : task.condition ≠ some ""
  target : task.target ≠ some ""
  cluster : ∀ request ∈ task.cluster, request.Worded
  provides : ∀ capability ∈ task.provides, capability.value ≠ some ""
  semantics : ∀ semantics ∈ task.semantics, semantics.Worded
  hooks : ∀ hooks ∈ task.hooks, hooks ≠ .unset

/-- The texts of a gate under the names of their members. -/
def Gate.texts (gate : Gate) : List (String × Option String) :=
  [("message", gate.message), ("env_var", gate.envVariable), ("file_path", gate.filePath)]

theorem word_criticality_ne_empty (level : Criticality) : Vocabulary.word level ≠ "" := by
  cases level <;> decide

theorem word_failureAction_ne_empty (action : FailureAction) : Vocabulary.word action ≠ "" := by
  cases action <;> decide

theorem word_selection_ne_empty (mode : Selection) : Vocabulary.word mode ≠ "" := by
  cases mode <;> decide

theorem ClusterRequest.eq_unset_of_isZero {request : ClusterRequest} (h : request.toJson.IsZero) :
    request = .unset := by
  have hmissing : ∀ member ∈ request.members, member.2 = none := fun _ => missing_of_isZero h
  have hgpu : request.gpu = 0 := by
    have hnone : (ifPositive "gpu" request.gpu.toNat).2 = none := hmissing _ (by simp [members])
    exact UInt32.toNat_inj.mp (by simpa [ifPositive] using hnone)
  obtain ⟨memory, cpu, gpu, raw⟩ := request
  simp_all [members, ifSome, unset]

theorem Semantics.eq_unset_of_isZero {semantics : Semantics} (h : semantics.toJson.IsZero) :
    semantics = .unset := by
  have hmissing : ∀ member ∈ semantics.members, member.2 = none := fun _ => missing_of_isZero h
  obtain ⟨covers, intent, criticality⟩ := semantics
  simp_all [members, ifSome, ifItems, unset]

theorem Hooks.eq_unset_of_isZero {hooks : Hooks} (h : hooks.toJson.IsZero) : hooks = .unset := by
  have hmissing : ∀ member ∈ hooks.members, member.2 = none := fun _ => missing_of_isZero h
  obtain ⟨onFailure, selection⟩ := hooks
  simp_all [members, ifSome, unset]

theorem Gate.not_isZero_toJson (gate : Gate) : ¬ gate.toJson.IsZero := by
  intro hzero
  have hmember : always "strategy" (ofMember gate.strategy) ∈ gate.members := by simp [members]
  cases missing_of_isZero hzero hmember

theorem Document.sparse (document : Document) : Sparse .document document.members := by
  simp [Sparse, members, RecordKind.optional, always, telling_ifEntries]

theorem Resource.sparse (resource : Resource) :
    Sparse .resource (always "type" (ofMember resource.kind) :: resource.members) := by
  cases resource with
  | directory path globs =>
      simp [Sparse, members, RecordKind.optional, always, telling_ifItems]
  | cache name => simp [Sparse, members, RecordKind.optional, always]

theorem ClusterRequest.Worded.sparse {request : ClusterRequest} (h : request.Worded) :
    Sparse .cluster request.members := by
  simp [Sparse, members, telling_text h.memory, telling_text h.cpu, telling_text h.raw,
    telling_ifPositive]

theorem Capability.sparse {capability : Capability} (h : capability.value ≠ some "") :
    Sparse .capability capability.members := by
  simp [Sparse, members, RecordKind.optional, always, telling_text h]

theorem Semantics.Worded.sparse {semantics : Semantics} (h : semantics.Worded) :
    Sparse .semantics semantics.members := by
  simp [Sparse, members, telling_ifItems, telling_text h.intent,
    telling_word word_criticality_ne_empty]

theorem Hooks.sparse (hooks : Hooks) : Sparse .hooks hooks.members := by
  simp [Sparse, members, telling_word word_failureAction_ne_empty,
    telling_word word_selection_ne_empty]

theorem TaskEntry.Worded.sparse {task : TaskEntry} (h : task.Worded) :
    Sparse .task task.members := by
  have hcluster : (ifSome "k8s" ClusterRequest.toJson task.cluster).Telling :=
    telling_ifSome fun request hrequest hzero =>
      (h.cluster request hrequest).asks (ClusterRequest.eq_unset_of_isZero hzero)
  have hsemantics : (ifSome "semantic" Semantics.toJson task.semantics).Telling :=
    telling_ifSome fun semantics hsemantics hzero =>
      (h.semantics semantics hsemantics).describes (Semantics.eq_unset_of_isZero hzero)
  have hhooks : (ifSome "ai_hooks" Hooks.toJson task.hooks).Telling :=
    telling_ifSome fun hooks hhooks hzero => h.hooks hooks hhooks (Hooks.eq_unset_of_isZero hzero)
  have hgate : (ifSome "gate" Gate.toJson task.gate).Telling :=
    telling_ifSome fun gate _ => gate.not_isZero_toJson
  simp [Sparse, TaskEntry.members, RecordKind.optional, always, telling_text h.command,
    telling_text h.container, telling_text h.workdir, telling_text h.condition,
    telling_text h.target, telling_ifEntries, telling_ifItems, telling_ifPositive, hcluster,
    hsemantics, hhooks, hgate]

/-! ## Idle members -/

namespace Document

/-- Where a task is found in the value of a document. -/
theorem occurs_task {document : Document} {task : TaskEntry} (htask : task ∈ document.tasks) :
    Occurs document.toJson .task (fields task.members) := by
  have hdocument : Occurs document.toJson .document (fields document.members) := .document rfl
  have hitems : (some "tasks", ofList TaskEntry.toJson document.tasks) ∈
      fields document.members := mem_fields.mpr (by simp [Document.members, always])
  exact hdocument.task hitems (List.mem_map_of_mem htask)

theorem occurs_gate {document : Document} {task : TaskEntry} {gate : Gate}
    (htask : task ∈ document.tasks) (hgate : gate ∈ task.gate) :
    Occurs document.toJson .gate (fields gate.members) := by
  have hvalue : (some "gate", gate.toJson) ∈ fields task.members := by
    have hsome : task.gate = some gate := hgate
    exact mem_fields.mpr (by simp [TaskEntry.members, ifSome, hsome])
  exact (occurs_task htask).gate hvalue

/-- In a document of worded tasks nothing idle is found outside the gates. -/
theorem HasRecord.sparse {document : Document} {record : List Member} {kind : RecordKind}
    (h : document.HasRecord record kind) (hworded : ∀ task ∈ document.tasks, task.Worded)
    (hkind : kind ≠ .gate) : Sparse kind record := by
  cases kind with
  | document => exact h ▸ document.sparse
  | resource =>
      obtain ⟨resource, rfl⟩ := h
      exact resource.sparse
  | task =>
      obtain ⟨task, htask, rfl⟩ := h
      exact (hworded task htask).sparse
  | cluster =>
      obtain ⟨task, htask, request, hrequest, rfl⟩ := h
      exact ((hworded task htask).cluster request hrequest).sparse
  | capability =>
      obtain ⟨task, htask, capability, hcapability, rfl⟩ := h
      exact Capability.sparse ((hworded task htask).provides capability hcapability)
  | semantics =>
      obtain ⟨task, htask, semantics, hsemantics, rfl⟩ := h
      exact ((hworded task htask).semantics semantics hsemantics).sparse
  | hooks =>
      obtain ⟨task, htask, hooks, hhooks, rfl⟩ := h
      exact hooks.sparse
  | gate => exact absurd rfl hkind

end Document

/-- An optional member of a gate is idle exactly if it is a text that was given as empty. -/
theorem Gate.idle_iff {gate : Gate} {name : String} :
    (name ∈ RecordKind.gate.optional ∧ ∃ value, (name, some value) ∈ gate.members ∧ value.IsZero) ↔
      (name, some "") ∈ gate.texts := by
  have htext {key : String} {text : Option String} {value : Json} (hzero : value.IsZero)
      (hvalue : (name, some value) = ifSome key ofString text) : (name, some "") = (key, text) := by
    obtain ⟨rfl, hgiven⟩ := Prod.mk.inj hvalue
    obtain ⟨given, rfl, rfl⟩ := Option.map_eq_some_iff.mp hgiven.symm
    rw [ofString, isZero_string, Option.some_inj] at hzero
    rw [hzero]
  constructor
  · rintro ⟨hoptional, value, hvalue, hzero⟩
    rw [members, List.mem_cons, List.mem_cons] at hvalue
    rcases hvalue with hstrategy | htimeout | htexts
    · obtain ⟨rfl, -⟩ := Prod.mk.inj hstrategy
      simp [RecordKind.optional] at hoptional
    · exact absurd hzero (telling_ifPositive _ _ value (congrArg Prod.snd htimeout).symm)
    · simp only [List.mem_cons, List.not_mem_nil, or_false] at htexts
      rw [texts, List.mem_cons, List.mem_cons, List.mem_singleton]
      exact htexts.imp (htext hzero) (Or.imp (htext hzero) (htext hzero))
  · intro h
    have hempty : (ofString "").IsZero := .text
    simp only [texts, List.mem_cons, List.not_mem_nil, or_false, Prod.mk.injEq] at h
    rcases h with ⟨rfl, hmessage⟩ | ⟨rfl, hvariable⟩ | ⟨rfl, hpath⟩
    · exact ⟨by simp [RecordKind.optional], _, by simp [members, ifSome, ← hmessage], hempty⟩
    · exact ⟨by simp [RecordKind.optional], _, by simp [members, ifSome, ← hvariable], hempty⟩
    · exact ⟨by simp [RecordKind.optional], _, by simp [members, ifSome, ← hpath], hempty⟩

theorem Document.idle_iff {document : Document} (h : ∀ task ∈ document.tasks, task.Worded)
    {kind : RecordKind} {name : String} :
    document.toJson.Idle kind name ↔
      kind = .gate ∧ ∃ task ∈ document.tasks, ∃ gate ∈ task.gate, (name, some "") ∈ gate.texts := by
  constructor
  · rintro ⟨hoptional, members, value, hoccurs, hvalue, hzero⟩
    obtain ⟨record, hrecord, rfl⟩ := hoccurs.hasRecord
    rw [mem_fields] at hvalue
    by_cases hkind : kind = .gate
    · cases hkind
      obtain ⟨task, htask, gate, hgate, rfl⟩ := hrecord
      exact ⟨rfl, task, htask, gate, hgate, Gate.idle_iff.mp ⟨hoptional, value, hvalue, hzero⟩⟩
    · exact absurd hzero (hrecord.sparse h hkind _ hvalue hoptional value rfl)
  · rintro ⟨rfl, task, htask, gate, hgate, htext⟩
    obtain ⟨hoptional, value, hvalue, hzero⟩ := Gate.idle_iff.mpr htext
    exact ⟨hoptional, _, value, occurs_gate htask hgate, mem_fields.mpr hvalue, hzero⟩

end CiPipeline
