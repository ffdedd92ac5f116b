import CiPipeline.Proofs.Pipeline.Outcome

/-!
# What settings do

The inversion of the settings of tasks, gates and templates: what a setting that passed its checks
did to the name, the dependencies and the mounts.
-/

namespace CiPipeline

namespace Step

theorem mem_dependencies_addDependency {step : Step} {name dependency : String} :
    dependency ∈ (step.addDependency name).dependencies ↔
      dependency ∈ step.dependencies ∨ dependency = name ∧ name ≠ "" := by
  rw [addDependency]
  split
  · rename_i hskipped
    have hknown : name = "" ∨ name ∈ step.dependencies := by simpa using hskipped
    constructor
    · exact .inl
    · rintro (hold | ⟨rfl, hname⟩)
      · exact hold
      · exact hknown.resolve_left hname
  · rename_i hadded
    have hname : name ≠ "" := by
      rintro rfl
      exact hadded rfl
    simp [hname]

/-- Of the names that are asked for, all but the empty one become dependencies. -/
theorem mem_dependencies_addDependencies {step : Step} {names : List String}
    {dependency : String} :
    dependency ∈ (step.addDependencies names).dependencies ↔
      dependency ∈ step.dependencies ∨ dependency ∈ names ∧ dependency ≠ "" := by
  induction names generalizing step with
  | nil => simp [addDependencies]
  | cons name rest ih =>
      have hrest : step.addDependencies (name :: rest) =
          (step.addDependency name).addDependencies rest := rfl
      rw [hrest, ih, mem_dependencies_addDependency, List.mem_cons]
      constructor
      · rintro ((hold | ⟨rfl, hname⟩) | ⟨hrest, hname⟩)
        · exact .inl hold
        · exact .inr ⟨.inl rfl, hname⟩
        · exact .inr ⟨.inr hrest, hname⟩
      · rintro (hold | ⟨rfl | hrest, hname⟩)
        · exact .inl (.inl hold)
        · exact .inl (.inr ⟨rfl, hname⟩)
        · exact .inr ⟨hrest, hname⟩

end Step

namespace TaskSetting

/-- The mount that a setting makes. -/
def mount? : TaskSetting → Option Mount
  | .mount directory path => some (directory.mountAt path)
  | .mountCache cache path => some (cache.mountAt path)
  | .mountCurrent => some (Directory.current.mountAt currentMountPath)
  | .mountCurrentAt path => some (Directory.current.mountAt path)
  | _ => none

/-- The mounts that a setting takes from a template. -/
def templateMounts (templates : OrderedMap Template) : TaskSetting → List Mount
  | .template name => ((templates.get? name).map Template.mounts).getD []
  | _ => []

theorem mounts_change (templates : OrderedMap Template) (task : Task) (setting : TaskSetting) :
    (setting.change templates task).mounts =
      setting.templateMounts templates ++ task.mounts ++ setting.mount?.toList := by
  cases setting with
  | template name =>
      cases hfound : templates.get? name with
      | none => simp [change, templateMounts, mount?, hfound]
      | some found => simp [change, templateMounts, mount?, hfound, Task.takeOver]
  | _ => simp [change, templateMounts, mount?]

/-- What a setting that passed its checks did. -/
structure Applied (templates : OrderedMap Template) (step : Step) (task : Task)
    (setting : TaskSetting) (next : Step) (set : Task) : Prop where
  name_eq : next.name = step.name
  dependencies_eq : next.dependencies = (step.addDependencies setting.requests).dependencies
  task_eq : next.task? = some set
  mounts_eq : set.mounts = setting.templateMounts templates ++ task.mounts ++ setting.mount?.toList
  absolute : ∀ mount ∈ setting.mount?, isAbsolute mount.path = true

theorem absolute_of_unrefused {templates : OrderedMap Template} {name : String}
    {setting : TaskSetting} (h : setting.refusal? templates name = none) :
    ∀ mount ∈ setting.mount?, isAbsolute mount.path = true := by
  cases setting with
  | mount | mountCache | mountCurrentAt =>
      rintro mount ⟨⟩
      exact (Bool.not_eq_false' _).mp (objection_eq_none_iff.mp h)
  | mountCurrent =>
      rintro mount ⟨⟩
      rfl
  | _ => exact fun mount hmount => by cases hmount

theorem applied {templates : OrderedMap Template} {step next : Step} {task : Task}
    {setting : TaskSetting} (htask : step.task? = some task)
    (h : setting.apply templates step task = .ok next) :
    Applied templates step task setting next (setting.change templates task) := by
  obtain ⟨hpassed, rfl⟩ := granted_eq_ok_iff.mp h
  obtain ⟨hgate, -⟩ := Step.task?_eq_some_iff.mp htask
  exact ⟨rfl, rfl, Step.task?_eq_some_iff.mpr ⟨hgate, rfl⟩, mounts_change templates task setting,
    absolute_of_unrefused hpassed⟩

end TaskSetting

namespace GateSetting

/-- What a setting that passed its checks did. -/
structure Applied (step : Step) (setting : GateSetting) (next : Step) (set : Gate) : Prop where
  name_eq : next.name = step.name
  dependencies_eq : next.dependencies = (step.addDependencies setting.requests).dependencies
  settings_eq : next.settings = step.settings
  gate_eq : next.gate? = some set

theorem applied {step next : Step} {gate : Gate} {setting : GateSetting}
    (h : setting.apply step gate = .ok next) :
    Applied step setting next (setting.change gate) := by
  obtain ⟨-, rfl⟩ := granted_eq_ok_iff.mp h
  exact ⟨rfl, rfl, rfl, rfl⟩

end GateSetting

namespace TemplateSetting

/-- The mount that a setting makes. -/
def mount? : TemplateSetting → Option Mount
  | .mount directory path => some (directory.mountAt path)
  | .mountCache cache path => some (cache.mountAt path)
  | _ => none

/-- What a setting that passed its checks did to the mounts. -/
structure Applied (template : Template) (setting : TemplateSetting) (next : Template) : Prop where
  mounts_eq : next.mounts = template.mounts ++ setting.mount?.toList
  absolute : ∀ mount ∈ setting.mount?, isAbsolute mount.path = true

theorem applied {name : String} {template next : Template} {setting : TemplateSetting}
    (h : setting.apply name template = .ok next) : Applied template setting next := by
  obtain ⟨hpassed, rfl⟩ := granted_eq_ok_iff.mp h
  cases setting with
  | workdir | container | env => exact ⟨by simp [change, mount?], by simp [mount?]⟩
  | mount | mountCache =>
      refine ⟨rfl, ?_⟩
      rintro mount ⟨⟩
      exact (Bool.not_eq_false' _).mp (objection_eq_none_iff.mp hpassed)

end TemplateSetting

end CiPipeline
