import CiPipeline.Proofs.Pipeline.Projection
import CiPipeline.Proofs.Pipeline.Refusal
import CiPipeline.Proofs.Pipeline.Validation

/-!
# Sessions

A session builds pipelines side by side, with copies of them and with builders that are held while
the pipelines go on. Main statement: the names of each pipeline stay one consistent namespace, every
builder keeps finding its step, and documents have the names in order and depend on them only,
without a cycle.
-/

namespace CiPipeline

/-! ## Composed computations -/

/-- What can be written with calls: a computation that makes them one after the other, looks at the
pipeline and at their answers in between, catches refusals or makes its own, and has matrices
built by such computations. -/
inductive Build.Composed : {α : Type} → Build α → Prop where
  | pure {α : Type} (value : α) : Composed (pure value : Build α)
  | refuse {α : Type} (refusal : Refusal) : Composed (throw refusal : Build α)
  | look : Composed (get : Build Pipeline)
  | request (request : Request) : Composed request.answer
  | bind {α β : Type} {first : Build α} {rest : α → Build β} (hfirst : Composed first)
      (hrest : ∀ value, Composed (rest value)) : Composed (first >>= rest)
  | recover {α : Type} {first : Build α} {rest : Refusal → Build α} (hfirst : Composed first)
      (hrest : ∀ refusal, Composed (rest refusal)) : Composed (tryCatch first rest)
  | matrix {α : Type} (name : String) (values : List α) {build : α → Build String}
      (hbuild : ∀ value, Composed (build value)) : Composed (Pipeline.matrix name values build)

/-- What outlasts single calls outlasts a request, ready-made tasks included. -/
theorem Request.keeps_answer {holds : Pipeline → Prop} (hcalls : OutlastsCalls holds)
    (request : Request) : request.answer.Keeps holds := by
  cases request with
  | addTask name => exact (Build.keeps_of_discard hcalls (.addTask name) rfl).map _
  | addGate name => exact (Build.keeps_of_discard hcalls (.addGate name) rfl).map _
  | addTemplate name => exact (Build.keeps_call hcalls (.addTemplate name)).map _
  | addDirectory path globs =>
      exact (Build.keeps_of_discard hcalls (.addDirectory path globs) rfl).map _
  | addCache name => exact (Build.keeps_of_discard hcalls (.addCache name) rfl).map _
  | addPreset preset => exact (Pipeline.keeps_addPreset hcalls preset).map _
  | setTask place setting => exact (Build.keeps_call hcalls (.setTask place setting)).map _
  | setGate place setting => exact (Build.keeps_call hcalls (.setGate place setting)).map _
  | setTemplate name setting =>
      exact (Build.keeps_call hcalls (.setTemplate name setting)).map _
  | reopenTask name setting => exact (Pipeline.keeps_setTask hcalls name setting).map _
  | reopenGate name setting => exact (Pipeline.keeps_setGate hcalls name setting).map _
  | chain stages => exact (Build.keeps_of_discard hcalls (.chain stages) rfl).map _

theorem outlastsCalls_names_grow (names : List String) :
    OutlastsCalls fun pipeline => names <+: pipeline.names :=
  outlastsCalls_of_change fun hgrow hchange => hgrow.trans hchange.names_grow

namespace Build

variable {α : Type} {computation : Build α}

theorem Composed.keeps (h : computation.Composed) {holds : Pipeline → Prop}
    (hcalls : OutlastsCalls holds) : computation.Keeps holds := by
  induction h with
  | pure value => exact keeps_pure value
  | refuse refusal => exact fun _ h => h
  | look => exact fun _ h => h
  | request request => exact request.keeps_answer hcalls
  | bind _ _ ihfirst ihrest => exact ihfirst.bind ihrest
  | recover _ _ ihfirst ihrest => exact ihfirst.tryCatch ihrest
  | matrix name values _ ih => exact Pipeline.keeps_matrix name fun value _ => ih value

theorem Composed.names_grow (h : computation.Composed) (pipeline : Pipeline) :
    pipeline.names <+: (computation.perform pipeline).2.names :=
  h.keeps (outlastsCalls_names_grow pipeline.names) pipeline (List.prefix_refl _)

end Build

/-! ## Builders -/

namespace Pipeline

/-- The ways to the builder of a step, which is a place, and the pipeline then: a task or a gate is
registered or opened again by its name. What is made ready comes with the builder of its name. -/
inductive Opens (pipeline : Pipeline) : String → Nat → Pipeline → Prop where
  | task {name : String} {place : Nat} {next : Pipeline}
      (h : (register .task (.newTask name)).perform pipeline = (.ok place, next)) :
      Opens pipeline name place next
  | gate {name : String} {place : Nat} {next : Pipeline}
      (h : (register .gate (.newGate name)).perform pipeline = (.ok place, next)) :
      Opens pipeline name place next
  | preset {preset : Preset} {name : String} {place : Nat} {next : Pipeline}
      (h : (addPreset preset).perform pipeline = (.ok name, next))
      (hplace : next.taskPlace? name = some place) : Opens pipeline name place next
  | reopenedTask {name : String} {place : Nat} (hplace : pipeline.taskPlace? name = some place) :
      Opens pipeline name place pipeline
  | reopenedGate {name : String} {place : Nat} (hplace : pipeline.gatePlace? name = some place) :
      Opens pipeline name place pipeline

variable {pipeline next : Pipeline} {name : String} {place : Nat}

/-- A registration that is not refused puts its step at the end and gives the place there. -/
theorem register_eq_ok {named : Named} {step : Step}
    (h : (register named step).perform pipeline = (.ok place, next)) :
    next = pipeline.withStep step ∧ place = pipeline.names.length := by
  rw [register, Build.perform_bind, Build.perform_get] at h
  dsimp only at h
  by_cases hempty : step.name.isEmpty = true
  · rw [if_pos hempty] at h
    cases h
  · rw [if_neg hempty] at h
    by_cases hknown : pipeline.contains step.name = true
    · rw [if_pos hknown] at h
      cases h
    · rw [if_neg hknown] at h
      cases h
      exact ⟨rfl, (List.length_map _).symm⟩

theorem getElem?_names_of_register {named : Named} {step : Step}
    (h : (register named step).perform pipeline = (.ok place, next)) :
    next.names[place]? = some step.name := by
  obtain ⟨rfl, rfl⟩ := register_eq_ok h
  simp

theorem Indexed.index?_eq_some_iff (h : pipeline.Indexed) :
    pipeline.index? name = some place ↔ pipeline.names[place]? = some name :=
  h.numbers.get?_eq_some_iff

theorem Indexed.getElem?_names_of_taskPlace? (h : pipeline.Indexed)
    (hplace : pipeline.taskPlace? name = some place) : pipeline.names[place]? = some name :=
  h.index?_eq_some_iff.mp (Option.filter_eq_some_iff.mp hplace).1

theorem Indexed.getElem?_names_of_gatePlace? (h : pipeline.Indexed)
    (hplace : pipeline.gatePlace? name = some place) : pipeline.names[place]? = some name :=
  h.index?_eq_some_iff.mp (Option.filter_eq_some_iff.mp hplace).1

theorem Opens.keeps (hopens : pipeline.Opens name place next) {holds : Pipeline → Prop}
    (hcalls : OutlastsCalls holds) (h : holds pipeline) : holds next := by
  cases hopens with
  | task hregister =>
      have hnext := Build.keeps_of_discard hcalls (.addTask name) rfl pipeline h
      rwa [hregister] at hnext
  | gate hregister =>
      have hnext := Build.keeps_of_discard hcalls (.addGate name) rfl pipeline h
      rwa [hregister] at hnext
  | @preset preset _ _ _ hadd _ =>
      have hnext := keeps_addPreset hcalls preset pipeline h
      rwa [hadd] at hnext
  | reopenedTask => exact h
  | reopenedGate => exact h

theorem Opens.names_grow (hopens : pipeline.Opens name place next) :
    pipeline.names <+: next.names :=
  hopens.keeps (outlastsCalls_names_grow pipeline.names) (List.prefix_refl _)

/-- A builder is opened at the place of its name. -/
theorem Opens.getElem?_names (hopens : pipeline.Opens name place next) (h : pipeline.Reachable) :
    next.names[place]? = some name := by
  have hindexed := (hopens.keeps outlastsCalls_reachable h).indexed
  cases hopens with
  | task hregister => exact getElem?_names_of_register hregister
  | gate hregister => exact getElem?_names_of_register hregister
  | preset _ hplace => exact hindexed.getElem?_names_of_taskPlace? hplace
  | reopenedTask hplace => exact hindexed.getElem?_names_of_taskPlace? hplace
  | reopenedGate hplace => exact hindexed.getElem?_names_of_gatePlace? hplace

end Pipeline

/-- A builder as it is held: the number of its pipeline, the name of its step, and the place. -/
structure Builder where
  pipeline : Nat
  name : String
  place : Nat

/-! ## Sessions -/

/-- Pipelines side by side with the builders that are held of them. What a computation does one
after the other is as well many small ones, so that builders are opened and held in the midst of a
matrix as anywhere else. -/
inductive Session : List Pipeline → List Builder → Prop where
  | nil : Session [] []
  | start {pipelines : List Pipeline} {builders : List Builder} (h : Session pipelines builders)
      (defaults : Option KubernetesOptions) :
      Session (pipelines ++ [.withDefaults defaults]) builders
  | copy {pipelines : List Pipeline} {builders : List Builder} (h : Session pipelines builders)
      {pipeline : Pipeline} (hmem : pipeline ∈ pipelines) :
      Session (pipelines ++ [pipeline]) builders
  | perform {pipelines : List Pipeline} {builders : List Builder} (h : Session pipelines builders)
      {number : Nat} {pipeline : Pipeline} (hpipeline : pipelines[number]? = some pipeline)
      {α : Type} {computation : Build α} (hcomposed : computation.Composed) :
      Session (pipelines.set number (computation.perform pipeline).2) builders
  | hold {pipelines : List Pipeline} {builders : List Builder} (h : Session pipelines builders)
      {number : Nat} {pipeline : Pipeline} (hpipeline : pipelines[number]? = some pipeline)
      {name : String} {place : Nat} {next : Pipeline} (hopens : pipeline.Opens name place next) :
      Session (pipelines.set number next) (⟨number, name, place⟩ :: builders)

/-- The builder finds the step of its name at its place. -/
def Builder.Finds (builder : Builder) (pipelines : List Pipeline) : Prop :=
  ∃ pipeline, pipelines[builder.pipeline]? = some pipeline ∧
    pipeline.names[builder.place]? = some builder.name

theorem Builder.Finds.append {builder : Builder} {pipelines : List Pipeline}
    (h : builder.Finds pipelines) (more : List Pipeline) : builder.Finds (pipelines ++ more) := by
  obtain ⟨pipeline, hpipeline, hname⟩ := h
  obtain ⟨hlt, -⟩ := List.getElem?_eq_some_iff.mp hpipeline
  exact ⟨pipeline, by rw [List.getElem?_append_left hlt, hpipeline], hname⟩

/-- A pipeline to which only names were added may take the place of the one it was. -/
theorem Builder.Finds.set {builder : Builder} {pipelines : List Pipeline}
    (h : builder.Finds pipelines) {number : Nat} {pipeline next : Pipeline}
    (hpipeline : pipelines[number]? = some pipeline) (hnames : pipeline.names <+: next.names) :
    builder.Finds (pipelines.set number next) := by
  obtain ⟨found, hfound, hname⟩ := h
  by_cases hnumber : builder.pipeline = number
  · rw [hnumber, hpipeline] at hfound
    cases hfound
    obtain ⟨hlt, -⟩ := List.getElem?_eq_some_iff.mp hpipeline
    refine ⟨next, ?_, getElem?_of_isPrefix hnames hname⟩
    rw [hnumber, List.getElem?_set_self hlt]
  · exact ⟨found, by rw [List.getElem?_set_ne (Ne.symm hnumber), hfound], hname⟩

namespace Session

variable {pipelines : List Pipeline} {builders : List Builder}

theorem reachable_set (h : ∀ pipeline ∈ pipelines, pipeline.Reachable) (number : Nat)
    {next : Pipeline} (hnext : next.Reachable) :
    ∀ pipeline ∈ pipelines.set number next, pipeline.Reachable := by
  intro pipeline hmem
  rcases List.mem_or_eq_of_mem_set hmem with hold | rfl
  · exact h pipeline hold
  · exact hnext

theorem reachable (h : Session pipelines builders) :
    ∀ pipeline ∈ pipelines, pipeline.Reachable := by
  induction h with
  | nil => simp
  | start _ defaults ih =>
      rw [List.forall_mem_append, List.forall_mem_singleton]
      exact ⟨ih, .start defaults⟩
  | copy _ hmem ih =>
      rw [List.forall_mem_append, List.forall_mem_singleton]
      exact ⟨ih, ih _ hmem⟩
  | perform _ hpipeline hcomposed ih =>
      have hbefore := ih _ (List.mem_of_getElem? hpipeline)
      exact reachable_set ih _ (hcomposed.keeps outlastsCalls_reachable _ hbefore)
  | hold _ hpipeline hopens ih =>
      have hbefore := ih _ (List.mem_of_getElem? hpipeline)
      exact reachable_set ih _ (hopens.keeps outlastsCalls_reachable hbefore)

/-- A builder finds its step when it is opened, and what is done later only adds names. -/
theorem finds (h : Session pipelines builders) : ∀ builder ∈ builders, builder.Finds pipelines := by
  induction h with
  | nil => simp
  | start _ _ ih => exact fun builder hmem => (ih builder hmem).append _
  | copy _ _ ih => exact fun builder hmem => (ih builder hmem).append _
  | perform _ hpipeline hcomposed ih =>
      intro builder hmem
      exact (ih builder hmem).set hpipeline (hcomposed.names_grow _)
  | @hold pipelines _ hsession number pipeline hpipeline name place next hopens ih =>
      intro builder hmem
      rcases List.mem_cons.mp hmem with rfl | hheld
      · obtain ⟨hlt, -⟩ := List.getElem?_eq_some_iff.mp hpipeline
        have hreachable := hsession.reachable _ (List.mem_of_getElem? hpipeline)
        exact ⟨next, List.getElem?_set_self hlt, hopens.getElem?_names hreachable⟩
      · exact (ih builder hheld).set hpipeline hopens.names_grow

end Session

/-! ## Documents -/

/-- A task of the document lists a name among its dependencies. -/
def Document.DependsOn (document : Document) (name dependency : String) : Prop :=
  ∃ task ∈ document.tasks, task.name = name ∧ dependency ∈ task.dependencies

/-- The document has a task for each of the names, in their order, and the tasks depend on each
other only, without a cycle. -/
structure Document.Closed (document : Document) (names : List String) : Prop where
  names_eq : document.tasks.map TaskEntry.name = names
  nodup : (document.tasks.map TaskEntry.name).Nodup
  resolved : ∀ task ∈ document.tasks, ∀ dependency ∈ task.dependencies,
    dependency ∈ document.tasks.map TaskEntry.name
  acyclic : Acyclic document.DependsOn

namespace Pipeline

variable {pipeline : Pipeline}

theorem dependsOn_project_iff {name dependency : String} :
    pipeline.project.DependsOn name dependency ↔ pipeline.DependsOn name dependency := by
  constructor
  · intro h
    obtain ⟨entry, hentry, hname, hdependency⟩ := h
    obtain ⟨step, hstep, rfl⟩ := mem_tasks_project.mp hentry
    exact ⟨step, hstep, hname, hdependency⟩
  · intro h
    obtain ⟨step, hstep, hname, hdependency⟩ := h
    exact ⟨_, mem_tasks_project.mpr ⟨step, hstep, rfl⟩, hname, hdependency⟩

theorem Indexed.closed (h : pipeline.Indexed) {document : Document}
    (hdocument : pipeline.document = .ok document) : document.Closed pipeline.names := by
  obtain ⟨hvalidate, rfl⟩ := document_eq_ok_iff.mp hdocument
  have hvalid := (validate_eq_ok_iff h).mp hvalidate
  constructor
  · exact names_project pipeline
  · rw [names_project]
    exact h.nodup
  · intro entry hentry dependency hdependency
    obtain ⟨step, hstep, rfl⟩ := mem_tasks_project.mp hentry
    rw [names_project]
    exact hvalid.resolved step hstep dependency hdependency
  · have hdepends : pipeline.project.DependsOn = pipeline.DependsOn := by
      ext name dependency
      exact dependsOn_project_iff
    rw [hdepends]
    exact hvalid.acyclic

end Pipeline

/-! ## One namespace -/

namespace Session

variable {pipelines : List Pipeline} {builders : List Builder}

/-- In every session each pipeline has one namespace: the map of places knows the names of the steps
with their places and nothing else, no name is empty or used twice, and a document has the
names in order and depends on these only, without a cycle. Every builder finds its step. -/
theorem namespace_consistent (h : Session pipelines builders) :
    (∀ pipeline ∈ pipelines,
      (∀ name place, pipeline.index? name = some place ↔ pipeline.names[place]? = some name) ∧
      pipeline.names.Nodup ∧ "" ∉ pipeline.names ∧
      ∀ document, pipeline.document = .ok document → document.Closed pipeline.names) ∧
    ∀ builder ∈ builders, ∃ pipeline, pipelines[builder.pipeline]? = some pipeline ∧
      pipeline.names[builder.place]? = some builder.name := by
  constructor
  · intro pipeline hpipeline
    have hindexed := (h.reachable pipeline hpipeline).indexed
    refine ⟨?_, hindexed.nodup, hindexed.not_empty, ?_⟩
    · exact fun name place => hindexed.index?_eq_some_iff
    · exact fun document hdocument => hindexed.closed hdocument
  · exact h.finds

/-- A matrix that is refused at the name of a gate whose builder is held, and a copy of what is
left: the task that was built before stays, in both. -/
theorem namespace_of_refused_matrix :
    let build (value : String) : Build String := do
      let _ ← (Request.addTask value).answer
      let _ ← (Request.reopenTask value (.run "make")).answer
      pure value
    let matrix := Pipeline.matrix "all" ["test", "approve", "lint"] build
    let pipeline := (Pipeline.withDefaults none).withStep (.newGate "approve")
    let next := (matrix.perform pipeline).2
    Session [next, next] [⟨0, "approve", 0⟩] ∧
      (matrix.perform pipeline).1 = .error (.duplicateTask "approve") ∧
      next.names = ["approve", "test"] ∧ next.index? "test" = some 1 ∧
      next.document = .ok next.project ∧ next.project.Closed next.names := by
  intro build matrix pipeline next
  have hmatrix : matrix.Composed :=
    .matrix "all" _ fun value => .bind (.request (.addTask value)) fun _ =>
      .bind (.request (.reopenTask value (.run "make"))) fun _ => .pure value
  have hgate : (Pipeline.withDefaults none).Opens "approve" 0 pipeline := .gate rfl
  have hstart : Session [Pipeline.withDefaults none] [] := Session.nil.start none
  have hfirst : [Pipeline.withDefaults none][0]? = some (Pipeline.withDefaults none) := rfl
  have hheld : Session [pipeline] [⟨0, "approve", 0⟩] := hstart.hold hfirst hgate
  have hsecond : [pipeline][0]? = some pipeline := rfl
  have hbuilt : Session [next] [⟨0, "approve", 0⟩] := hheld.perform hsecond hmatrix
  have hsession : Session [next, next] [⟨0, "approve", 0⟩] :=
    hbuilt.copy (List.mem_singleton.mpr rfl)
  have hrefused : (matrix.perform pipeline).1 = .error (.duplicateTask "approve") := by
    decide +kernel
  have hnames : next.names = ["approve", "test"] := by decide +kernel
  have hdocument : next.document = .ok next.project := by decide +kernel
  obtain ⟨hindex, -, -, hclosed⟩ := hsession.namespace_consistent.1 next (by simp)
  refine ⟨hsession, hrefused, hnames, ?_, hdocument, hclosed _ hdocument⟩
  rw [hindex, hnames]
  rfl

end Session

end CiPipeline
