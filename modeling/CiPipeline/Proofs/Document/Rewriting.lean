import CiPipeline.Proofs.Document.RoundTrip
import CiPipeline.Proofs.Json.Rewriting
import Mathlib.Logic.Relation

/-!
# Documents in other words

A document can be given in other words than it is written in: every object that is read as a
record with its members in another order, with `null` for a missing optional member and with
members of other names, and all of it in any spelling and with any white space. The maps of a
document keep their order, and the entry of a resource may only be reordered. Main statement: a
document is read from each of these texts.
-/

namespace CiPipeline

open Json

/-! ## Rewritings of records -/

-- Of each field its name, whether it can be `null`, and how its value is rewritten.

/-- The members of a resource, its tag among them, in any order. -/
def Resource.Rewriting : Rewriting := Permuted

def Mount.Rewriting : Rewriting :=
  InRecord [⟨"resource", false, Fixed⟩, ⟨"path", false, Fixed⟩, ⟨"type", false, Fixed⟩]

def Artifact.Rewriting : Rewriting :=
  InRecord [⟨"from_task", false, Fixed⟩, ⟨"output", false, Fixed⟩, ⟨"dest", false, Fixed⟩]

def SecretReference.Rewriting : Rewriting :=
  InRecord [⟨"name", false, Fixed⟩, ⟨"source", false, Fixed⟩, ⟨"key", false, Fixed⟩]

def Service.Rewriting : Rewriting := InRecord [⟨"image", false, Fixed⟩, ⟨"name", false, Fixed⟩]

def ClusterRequest.Rewriting : Rewriting :=
  InRecord [⟨"memory", true, Fixed⟩, ⟨"cpu", true, Fixed⟩, ⟨"gpu", false, Fixed⟩,
    ⟨"raw", true, Fixed⟩]

def Capability.Rewriting : Rewriting := InRecord [⟨"name", false, Fixed⟩, ⟨"value", true, Fixed⟩]

def Semantics.Rewriting : Rewriting :=
  InRecord [⟨"covers", false, Fixed⟩, ⟨"intent", true, Fixed⟩, ⟨"criticality", true, Fixed⟩]

def Hooks.Rewriting : Rewriting := InRecord [⟨"on_fail", true, Fixed⟩, ⟨"select", true, Fixed⟩]

def Gate.Rewriting : Rewriting :=
  InRecord [⟨"strategy", false, Fixed⟩, ⟨"timeout", false, Fixed⟩, ⟨"message", true, Fixed⟩,
    ⟨"env_var", true, Fixed⟩, ⟨"file_path", true, Fixed⟩]

def TaskEntry.Rewriting : Rewriting :=
  InRecord
    [ ⟨"name", false, Fixed⟩,
      ⟨"command", true, Fixed⟩,
      ⟨"container", true, Fixed⟩,
      ⟨"workdir", true, Fixed⟩,
      ⟨"env", false, Fixed⟩,
      ⟨"mounts", false, InList Mount.Rewriting⟩,
      ⟨"inputs", false, Fixed⟩,
      ⟨"task_inputs", false, InList Artifact.Rewriting⟩,
      ⟨"outputs", false, Fixed⟩,
      ⟨"depends_on", false, Fixed⟩,
      ⟨"when", true, Fixed⟩,
      ⟨"secrets", false, Fixed⟩,
      ⟨"secret_refs", false, InList SecretReference.Rewriting⟩,
      ⟨"matrix", false, Fixed⟩,
      ⟨"services", false, InList Service.Rewriting⟩,
      ⟨"retry", false, Fixed⟩,
      ⟨"timeout", false, Fixed⟩,
      ⟨"target", true, Fixed⟩,
      ⟨"k8s", true, ClusterRequest.Rewriting⟩,
      ⟨"requires", false, Fixed⟩,
      ⟨"provides", false, InList Capability.Rewriting⟩,
      ⟨"needs", false, Fixed⟩,
      ⟨"semantic", true, Semantics.Rewriting⟩,
      ⟨"ai_hooks", true, Hooks.Rewriting⟩,
      ⟨"gate", true, Gate.Rewriting⟩]

def Document.Rewriting : Rewriting :=
  InRecord [⟨"version", false, Fixed⟩, ⟨"resources", false, InMap Resource.Rewriting⟩,
    ⟨"tasks", false, InList TaskEntry.Rewriting⟩]

/-! ## Resources -/

/-- Without its tag the entry of a resource is a record of its kind. -/
theorem Resource.insensitive : Insensitive Resource.ofJson? Resource.Rewriting where
  ne_null hstep := by
    obtain ⟨-⟩ := hstep
    exact ⟨Json.noConfusion, Json.noConfusion⟩
  decode_eq hstep := by
    obtain ⟨h⟩ := hstep
    rw [ofJson?, ofJson?, isSound_perm h, depth_perm h]
    rcases tagged?_perm "type" h with
      ⟨hfirst, hsecond⟩ | ⟨kind, entry, next, hfirst, hsecond, hrest⟩
    · rw [hfirst, hsecond]
    · rw [hfirst, hsecond]
      congr 1
      funext _
      simp only [Option.bind_eq_bind, Option.bind_some]
      congr 1
      funext kind
      cases kind with
      | directory =>
          have hrecord : InRecord [⟨"path", false, Fixed⟩, ⟨"globs", false, Fixed⟩] entry next :=
            .permute hrest
          refine Insensitive.decode_eq (insensitive_record (by decide) (fun _ => rfl) ?_) hrecord
          intro record other h
          simp only [Agree, List.forall_mem_cons] at h
          obtain ⟨hpath, hglobs, -⟩ := h
          rw [hpath.required insensitive_fixed, hglobs.withDefault insensitive_fixed]
      | cache =>
          have hrecord : InRecord [⟨"name", false, Fixed⟩] entry next := .permute hrest
          refine Insensitive.decode_eq (insensitive_record (by decide) (fun _ => rfl) ?_) hrecord
          intro record other h
          simp only [Agree, List.forall_mem_cons] at h
          obtain ⟨hname, -⟩ := h
          rw [hname.required insensitive_fixed]

/-! ## Parts of tasks -/

theorem Mount.insensitive : Insensitive Mount.ofJson? Mount.Rewriting := by
  refine insensitive_record (by decide) (fun _ => rfl) fun record other h => ?_
  simp only [Agree, List.forall_mem_cons] at h
  obtain ⟨hresource, hpath, hkind, -⟩ := h
  rw [hresource.required insensitive_fixed, hpath.required insensitive_fixed,
    hkind.required insensitive_fixed]

theorem Artifact.insensitive : Insensitive Artifact.ofJson? Artifact.Rewriting := by
  refine insensitive_record (by decide) (fun _ => rfl) fun record other h => ?_
  simp only [Agree, List.forall_mem_cons] at h
  obtain ⟨htask, houtput, hdestination, -⟩ := h
  rw [htask.required insensitive_fixed, houtput.required insensitive_fixed,
    hdestination.required insensitive_fixed]

theorem SecretReference.insensitive :
    Insensitive SecretReference.ofJson? SecretReference.Rewriting := by
  refine insensitive_record (by decide) (fun _ => rfl) fun record other h => ?_
  simp only [Agree, List.forall_mem_cons] at h
  obtain ⟨hname, hsource, hkey, -⟩ := h
  rw [hname.required insensitive_fixed, hsource.required insensitive_fixed,
    hkey.required insensitive_fixed]

theorem Service.insensitive : Insensitive Service.ofJson? Service.Rewriting := by
  refine insensitive_record (by decide) (fun _ => rfl) fun record other h => ?_
  simp only [Agree, List.forall_mem_cons] at h
  obtain ⟨himage, hname, -⟩ := h
  rw [himage.required insensitive_fixed, hname.required insensitive_fixed]

theorem ClusterRequest.insensitive :
    Insensitive ClusterRequest.ofJson? ClusterRequest.Rewriting := by
  refine insensitive_record (by decide) (fun _ => rfl) fun record other h => ?_
  simp only [Agree, List.forall_mem_cons] at h
  obtain ⟨hmemory, hcpu, hgpu, hraw, -⟩ := h
  rw [hmemory.optional insensitive_fixed, hcpu.optional insensitive_fixed,
    hgpu.withDefault insensitive_fixed, hraw.optional insensitive_fixed]

theorem Capability.insensitive : Insensitive Capability.ofJson? Capability.Rewriting := by
  refine insensitive_record (by decide) (fun _ => rfl) fun record other h => ?_
  simp only [Agree, List.forall_mem_cons] at h
  obtain ⟨hname, hvalue, -⟩ := h
  rw [hname.required insensitive_fixed, hvalue.optional insensitive_fixed]

theorem Semantics.insensitive : Insensitive Semantics.ofJson? Semantics.Rewriting := by
  refine insensitive_record (by decide) (fun _ => rfl) fun record other h => ?_
  simp only [Agree, List.forall_mem_cons] at h
  obtain ⟨hcovers, hintent, hcriticality, -⟩ := h
  rw [hcovers.withDefault insensitive_fixed, hintent.optional insensitive_fixed,
    hcriticality.optional insensitive_fixed]

theorem Hooks.insensitive : Insensitive Hooks.ofJson? Hooks.Rewriting := by
  refine insensitive_record (by decide) (fun _ => rfl) fun record other h => ?_
  simp only [Agree, List.forall_mem_cons] at h
  obtain ⟨haction, hselection, -⟩ := h
  rw [haction.optional insensitive_fixed, hselection.optional insensitive_fixed]

theorem Gate.insensitive : Insensitive Gate.ofJson? Gate.Rewriting := by
  refine insensitive_record (by decide) (fun _ => rfl) fun record other h => ?_
  simp only [Agree, List.forall_mem_cons] at h
  obtain ⟨hstrategy, htimeout, hmessage, henv, hfile, -⟩ := h
  rw [hstrategy.required insensitive_fixed, htimeout.withDefault insensitive_fixed,
    hmessage.optional insensitive_fixed, henv.optional insensitive_fixed,
    hfile.optional insensitive_fixed]

/-! ## Tasks and documents -/

theorem TaskEntry.insensitive : Insensitive TaskEntry.ofJson? TaskEntry.Rewriting := by
  refine insensitive_record (by decide) (fun _ => rfl) fun record other h => ?_
  simp only [Agree, List.forall_mem_cons] at h
  obtain ⟨hname, hcommand, hcontainer, hworkdir, henv, hmounts, hinputs, hartifacts, houtputs,
    hdependencies, hcondition, hsecrets, hreferences, hmatrix, hservices, hretry, htimeout, htarget,
    hcluster, hrequires, hprovides, hneeds, hsemantics, hhooks, hgate, -⟩ := h
  rw [hname.required insensitive_fixed, hcommand.optional insensitive_fixed,
    hcontainer.optional insensitive_fixed, hworkdir.optional insensitive_fixed,
    henv.withDefault insensitive_fixed,
    hmounts.withDefault (insensitive_list Mount.insensitive),
    hinputs.withDefault insensitive_fixed,
    hartifacts.withDefault (insensitive_list Artifact.insensitive),
    houtputs.withDefault insensitive_fixed, hdependencies.withDefault insensitive_fixed,
    hcondition.optional insensitive_fixed, hsecrets.withDefault insensitive_fixed,
    hreferences.withDefault (insensitive_list SecretReference.insensitive),
    hmatrix.withDefault insensitive_fixed,
    hservices.withDefault (insensitive_list Service.insensitive),
    hretry.withDefault insensitive_fixed, htimeout.withDefault insensitive_fixed,
    htarget.optional insensitive_fixed, hcluster.optional ClusterRequest.insensitive,
    hrequires.withDefault insensitive_fixed,
    hprovides.withDefault (insensitive_list Capability.insensitive),
    hneeds.withDefault insensitive_fixed, hsemantics.optional Semantics.insensitive,
    hhooks.optional Hooks.insensitive, hgate.optional Gate.insensitive]

theorem Document.insensitive : Insensitive Document.ofJson? Document.Rewriting := by
  refine insensitive_record (by decide) (fun _ => rfl) fun record other h => ?_
  simp only [Agree, List.forall_mem_cons] at h
  obtain ⟨hversion, hresources, htasks, -⟩ := h
  rw [hversion.required insensitive_fixed,
    hresources.withDefault (insensitive_map Resource.insensitive),
    htasks.required (insensitive_list TaskEntry.insensitive)]

/-- However often a value is rewritten, it is read as the same document, or still as none. -/
theorem Document.ofJson?_rewritten {json next : Json}
    (h : Relation.ReflTransGen Document.Rewriting json next) : ofJson? json = ofJson? next := by
  induction h with
  | refl => rfl
  | tail _ hstep ih => rw [ih, Document.insensitive.decode_eq hstep]

/-- A document is read from every text of what it can be rewritten to. -/
theorem Document.parse?_rewritten (document : Document) {json : Json} {text : String}
    (hrewritten : Relation.ReflTransGen Document.Rewriting document.toJson json)
    (htext : json.SpelledAs text.toList) : parse? text = some document := by
  have hsame : ofJson? document.toJson = ofJson? json := ofJson?_rewritten hrewritten
  rw [parse?, parse?_of_spelledAs htext, Option.bind_some, ← hsame]
  exact faithful.decode_encode document

/-- A cache whose tag comes last, and a task with `null` for its condition and with a member that
no task has, in a document with its members in another order and a blank before every token. -/
theorem Document.parse?_of_reordered :
    let task : TaskEntry :=
      { name := "a", command := some "make", container := none, workdir := none, env := .empty,
        mounts := [], inputs := [], artifacts := [], outputs := .empty, dependencies := [],
        condition := none, secrets := [], secretReferences := [], matrix := .empty, services := [],
        retry := 0, timeout := 0, target := none, cluster := none, requires := [], provides := [],
        needs := [], semantics := none, hooks := none, gate := none }
    let document : Document := ⟨.containers, .ofList [("go", .cache "go")], [task]⟩
    let text := " \x7b \"tasks\" : [ \x7b \"name\" : \"a\" , \"when\" : null ," ++
      " \"x\" : [ -1.5e3 , \x7b \"\" : \"\\ud800\" \x7d ] , \"command\" : \"make\" \x7d ] ," ++
      " \"version\" : \"2\" , \"resources\" : \x7b \"go\" : \x7b \"name\" : \"go\" ," ++
      " \"type\" : \"cache\" \x7d \x7d \x7d"
    Document.parse? text = some document := by
  intro task document text
  let string (text : String) : Json := .string (some text)
  let version : Content × Json := (some "version", string "2")
  let resources (cache : List (Content × Json)) : Content × Json :=
    (some "resources", .object [(some "go", .object cache)])
  let tasks (task : List (Content × Json)) : Content × Json :=
    (some "tasks", .array [.object task])
  let cache : List (Content × Json) := [(some "type", string "cache"), (some "name", string "go")]
  let name : Content × Json := (some "name", string "a")
  let command : Content × Json := (some "command", string "make")
  let when : Content × Json := (some "when", .null)
  let more : Content × Json :=
    (some "x", .array [.number "-1.5e3".toList, .object [(some "", .string none)]])
  have hcache : Document.Rewriting (.object [version, resources cache, tasks [name, command]])
      (.object [version, resources cache.reverse, tasks [name, command]]) :=
    @InRecord.member _ [version] [tasks [name, command]]
      ⟨"resources", false, InMap Resource.Rewriting⟩ _ _ (by simp)
      (@InMap.entry _ [] [] _ _ _ (Permuted.permute cache.reverse_perm.symm))
  have hwhen : TaskEntry.Rewriting (.object [name, command]) (.object [name, when, command]) :=
    @InRecord.null _ [name] [command] ⟨"when", true, Fixed⟩ (by simp) rfl (by simp [name, command])
  have hmore : TaskEntry.Rewriting (.object [name, when, command])
      (.object [name, when, more, command]) :=
    @InRecord.unknown _ [name, when] [command] "x" (by decide) _
  have htask {task next : List (Content × Json)}
      (h : TaskEntry.Rewriting (.object task) (.object next)) :
      Document.Rewriting (.object [version, resources cache.reverse, tasks task])
        (.object [version, resources cache.reverse, tasks next]) :=
    @InRecord.member _ [version, resources cache.reverse] []
      ⟨"tasks", false, InList TaskEntry.Rewriting⟩ _ _ (by simp)
      (@InList.item _ [] [] _ _ h)
  have horder : Document.Rewriting
      (.object [version, resources cache.reverse, tasks [name, when, more, command]])
      (.object [tasks [name, when, more, command], version, resources cache.reverse]) :=
    .permute (.permute (@List.perm_append_comm _ [version, resources cache.reverse] [_]))
  have hrewritten := Relation.ReflTransGen.single hcache |>.tail (htask hwhen) |>.tail (htask hmore)
    |>.tail horder
  let last : Json :=
    .object [tasks [name, when, more, command], version, resources cache.reverse]
  have htext : text.toList = spellSpaced (last.toTokens.map fun token => ([' '], token)) := by
    simp only [text, String.toList_append, String.reduceToList]
    decide +kernel
  have hreadable : ∀ token ∈ last.toTokens, token.Readable := by decide +kernel
  have hgaps : ∀ spaced ∈ last.toTokens.map fun token => ([' '], token),
      ∀ c ∈ spaced.1, isSpace c = true := by
    intro spaced hspaced
    obtain ⟨token, -, rfl⟩ := List.mem_map.mp hspaced
    simp [isSpace]
  have hspelled : last.SpelledAs text.toList := by
    have hspaced := spacedAs_spellSpaced hgaps (by simpa using hreadable)
    rw [SpelledAs, htext]
    simpa [Function.comp_def] using hspaced
  exact parse?_rewritten document hrewritten hspelled

end CiPipeline
