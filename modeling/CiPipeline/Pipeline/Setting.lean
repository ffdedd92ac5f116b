import CiPipeline.Pipeline.Composition

/-!
# Settings

What can be set on a task, a gate or a template, as data, and how it is set: check after check and
change after change, on the pipeline itself. What was changed before a refusal would stay, so that
it is for each setting to check first. The builder through which a step is set is its place; there
are builders of tasks and builders of gates, and what is set goes to the place, whatever stands
there.
-/

namespace CiPipeline

/-- A path in a container starts with a slash. -/
def isAbsolute (path : String) : Bool := path.toList.head? == some '/'

/-- Where tasks find the current directory unless they say otherwise. -/
def currentMountPath : String := "/work"

/-! ## Changes in place -/

namespace Pipeline

def checkMountPath (owner : Owner) (path : String) : Build Unit :=
  Build.refuseIf (!isAbsolute path) (.relativeMountPath owner path)

def changeStep (place : Nat) (change : Step → Step) : Build Unit :=
  modify fun pipeline => { pipeline with steps := pipeline.steps.modify place change }

def changeTask (place : Nat) (change : Task → Task) : Build Unit :=
  changeStep place fun step => { step with settings := change step.settings }

/-- Changes what the step waits for. If that is nothing yet, it is what a new gate waits for. -/
def changeGate (place : Nat) (change : Gate → Gate) : Build Unit :=
  changeStep place fun step => { step with gate? := some (change (step.gate?.getD .initial)) }

/-- Changes a template. If there is none of the name yet, it is a new one. -/
def changeTemplate (name : String) (change : Template → Template) : Build Unit :=
  modify fun pipeline =>
    { pipeline with
      templates := pipeline.templates.insert name
        (change ((pipeline.templates.get? name).getD .unset)) }

def ensureDirectory (directory : Directory) : Build Unit :=
  modify fun pipeline =>
    { pipeline with resources := Registry.addDirectory pipeline.resources directory [] }

def ensureCache (cache : Cache) : Build Unit :=
  modify fun pipeline => { pipeline with resources := Registry.addCache pipeline.resources cache }

/-- Mounts the current directory, and lets the task work there. -/
def mountCurrentAt (place : Nat) (path : String) : Build Unit := do
  ensureDirectory .current
  changeTask place fun task =>
    { task with mounts := task.mounts ++ [Directory.current.mountAt path] }
  changeTask place fun task => { task with workdir := some path }

/-- Lets a task take over the settings of a template: its own container, working directory and
variables come first, and the mounts of the template stand before its own. -/
def takeOver (place : Nat) (template : Template) : Build Unit := do
  changeTask place fun task =>
    { task with container := if isBare task.container then template.container else task.container }
  changeTask place fun task =>
    { task with workdir := if isBare task.workdir then template.workdir else task.workdir }
  changeTask place fun task => { task with env := template.env.extend task.env.toList }
  changeTask place fun task => { task with mounts := template.mounts ++ task.mounts }

end Pipeline

/-! ## Tasks -/

inductive TaskSetting where
  | run (command : String)
  | after (names : List String)
  | afterGroups (groups : List TaskGroup)
  | inputs (patterns : List String)
  | condition (condition : Condition)
  | container (image : String)
  | workdir (path : String)
  | mount (directory : Directory) (path : String)
  | mountCache (cache : Cache) (path : String)
  | mountCurrent
  | mountCurrentAt (path : String)
  | env (key value : String)
  | service (image name : String)
  | output (name path : String)
  | outputs (paths : List String)
  /-- Takes an output of another task, which then comes first. -/
  | inputFrom (artifact : Artifact)
  | secret (name : String)
  | secrets (names : List String)
  | secretFrom (name : String) (reference : SecretReference)
  | matrix (key : String) (values : List String)
  | retry (attempts : UInt32)
  | timeout (seconds : UInt64)
  | target (name : String)
  | cluster (options : KubernetesOptions)
  | clusterRaw (text : String)
  | requires (labels : List String)
  | covers (patterns : List String)
  | intent (description : String)
  | criticality (level : Choice Criticality)
  | critical
  | onFailure (action : Choice FailureAction)
  | selection (mode : Choice Selection)
  | smart
  | provides (name : String) (value : Option String)
  | needs (names : List String)
  | template (name : String)
deriving DecidableEq

namespace TaskSetting

/-- A choice from a vocabulary as a part of a call. -/
def settle [Vocabulary α] (choice : Choice α) : Except Refusal α :=
  choice.resolve.mapError .unknownWord

open Pipeline

/-- Sets it on the step at the place, of which only the name is known. -/
def make (place : Nat) (name : String) : TaskSetting → Build Unit
  | .run command => do
      Build.refuseIf command.isEmpty (.emptyCommand name)
      changeTask place fun task => { task with command := some command }
  | .after names => changeStep place (·.addDependencies names)
  | .afterGroups groups => changeStep place (·.addDependencies (groups.flatMap TaskGroup.last))
  | .inputs patterns =>
      changeTask place fun task => { task with inputs := task.inputs ++ patterns }
  | .condition c => changeStep place fun step => { step with condition := some c }
  | .container image => do
      Build.refuseIf image.isEmpty (.emptyContainerImage (.task name))
      changeTask place fun task => { task with container := some image }
  | .workdir path => changeTask place fun task => { task with workdir := some path }
  | .mount directory path => do
      checkMountPath (.task name) path
      ensureDirectory directory
      changeTask place fun task => { task with mounts := task.mounts ++ [directory.mountAt path] }
  | .mountCache cache path => do
      checkMountPath (.task name) path
      ensureCache cache
      changeTask place fun task => { task with mounts := task.mounts ++ [cache.mountAt path] }
  | .mountCurrent => Pipeline.mountCurrentAt place currentMountPath
  | .mountCurrentAt path => do
      checkMountPath (.task name) path
      Pipeline.mountCurrentAt place path
  | .env key value => do
      Build.refuseIf key.isEmpty (.emptyEnvKey (.task name))
      changeTask place fun task => { task with env := task.env.insert key value }
  | .service image name =>
      changeTask place fun task => { task with services := task.services ++ [⟨image, name⟩] }
  | .output name path =>
      changeTask place fun task => { task with outputs := task.outputs.insert name path }
  | .outputs paths =>
      changeTask place fun task => { task with unnamedOutputs := task.unnamedOutputs ++ paths }
  | .inputFrom artifact => do
      changeTask place fun task => { task with artifacts := task.artifacts ++ [artifact] }
      changeStep place (·.addDependency artifact.task)
  | .secret secretName => do
      Build.refuseIf secretName.isEmpty (.emptySecretName name)
      changeTask place fun task => { task with secrets := task.secrets ++ [secretName] }
  | .secrets names => do
      Build.refuseIf (names.any String.isEmpty) (.emptySecretName name)
      changeTask place fun task => { task with secrets := task.secrets ++ names }
  | .secretFrom secretName reference => do
      Build.refuseIf secretName.isEmpty (.emptySecretName name)
      Build.refuseIf (reference.name != secretName)
        (.secretNameMismatch name secretName reference.name)
      changeTask place fun task =>
        { task with secretReferences := task.secretReferences ++ [reference] }
  | .matrix key values =>
      changeTask place fun task => { task with matrix := task.matrix.insert key values }
  | .retry attempts => changeTask place fun task => { task with retry := attempts }
  | .timeout seconds => do
      Build.refuseIf (seconds == 0) (.zeroTimeout name)
      changeTask place fun task => { task with timeout := seconds }
  | .target name => changeTask place fun task => { task with target := some name }
  | .cluster options => changeTask place fun task => { task with cluster := some options }
  | .clusterRaw text => changeTask place fun task => { task with clusterRaw := text }
  | .requires labels =>
      changeTask place fun task => { task with requires := task.requires ++ labels }
  | .covers patterns =>
      changeTask place fun task => { task with covers := task.covers ++ patterns }
  | .intent description =>
      changeTask place fun task => { task with intent := some description }
  | .criticality choice => do
      let level ← Build.ofExcept (settle choice)
      changeTask place fun task => { task with criticality := some level }
  | .critical => changeTask place fun task => { task with criticality := some .high }
  | .onFailure choice => do
      let action ← Build.ofExcept (settle choice)
      changeTask place fun task => { task with onFailure := some action }
  | .selection choice => do
      let mode ← Build.ofExcept (settle choice)
      changeTask place fun task => { task with selection := some mode }
  | .smart => changeTask place fun task => { task with selection := some .smart }
  | .provides capability value => do
      Build.refuseIf capability.isEmpty (.emptyCapability name)
      changeTask place fun task =>
        { task with provides := task.provides ++ [⟨capability, nonempty? value⟩] }
  | .needs names => do
      Build.refuseIf (names.any String.isEmpty) (.emptyCapability name)
      changeTask place fun task => { task with needs := task.needs ++ names }
  | .template templateName => do
      match (← get).templates.get? templateName with
      | none => throw (.unknownTemplate name templateName)
      | some found => takeOver place found

end TaskSetting

/-! ## Gates -/

inductive GateSetting where
  | strategy (strategy : Choice ApprovalStrategy)
  | message (text : String)
  | timeout (seconds : UInt64)
  | envVariable (name : String)
  | filePath (path : String)
  | after (names : List String)
  | afterGroups (groups : List TaskGroup)
  | condition (condition : Condition)
deriving DecidableEq

namespace GateSetting

open Pipeline

/-- Sets it on the step at the place, of which only the name is known. -/
def make (place : Nat) (name : String) : GateSetting → Build Unit
  | .strategy choice => do
      let strategy ← Build.ofExcept (TaskSetting.settle choice)
      changeGate place fun gate => { gate with strategy }
  | .message text => changeGate place fun gate => { gate with message := some text }
  | .timeout seconds => do
      Build.refuseIf (seconds == 0) (.zeroGateTimeout name)
      changeGate place fun gate => { gate with timeout := seconds }
  | .envVariable name => changeGate place fun gate => { gate with envVariable := some name }
  | .filePath path => changeGate place fun gate => { gate with filePath := some path }
  | .after names => changeStep place (·.addDependencies names)
  | .afterGroups groups => changeStep place (·.addDependencies (groups.flatMap TaskGroup.last))
  | .condition c => changeStep place fun step => { step with condition := some c }

end GateSetting

/-! ## Templates -/

inductive TemplateSetting where
  | container (image : String)
  | workdir (path : String)
  | env (key value : String)
  | mount (directory : Directory) (path : String)
  | mountCache (cache : Cache) (path : String)
deriving DecidableEq

namespace TemplateSetting

open Pipeline

/-- Sets it on the template of the name. -/
def make (name : String) : TemplateSetting → Build Unit
  | .container image => do
      Build.refuseIf image.isEmpty (.emptyContainerImage (.template name))
      changeTemplate name fun template => { template with container := some image }
  | .workdir path => changeTemplate name fun template => { template with workdir := some path }
  | .env key value => do
      Build.refuseIf key.isEmpty (.emptyEnvKey (.template name))
      changeTemplate name fun template => { template with env := template.env.insert key value }
  | .mount directory path => do
      checkMountPath (.template name) path
      ensureDirectory directory
      changeTemplate name fun template =>
        { template with mounts := template.mounts ++ [directory.mountAt path] }
  | .mountCache cache path => do
      checkMountPath (.template name) path
      ensureCache cache
      changeTemplate name fun template =>
        { template with mounts := template.mounts ++ [cache.mountAt path] }

end TemplateSetting

/-! ## Calls -/

namespace Pipeline

/-- Sets up the task at a place. There are builders of tasks for tasks only: where a gate stands, or
nothing, nothing is set. -/
def setTaskAt (place : Nat) (setting : TaskSetting) : Build Unit := do
  match (← get).steps[place]? with
  | none => pure ()
  | some step => if step.isGate then pure () else setting.make place step.name

/-- Sets up a task by its name. A name that is not that of a task is passed over. -/
def setTask (name : String) (setting : TaskSetting) : Build Unit := do
  match (← get).taskPlace? name with
  | none => pure ()
  | some place => setTaskAt place setting

/-- Sets up the gate at a place. There are builders of gates for gates only: where a task stands, or
nothing, nothing is set. -/
def setGateAt (place : Nat) (setting : GateSetting) : Build Unit := do
  match (← get).steps[place]? with
  | none => pure ()
  | some step => if step.isGate then setting.make place step.name else pure ()

/-- Sets up a gate by its name. A name that is not that of a gate is passed over. -/
def setGate (name : String) (setting : GateSetting) : Build Unit := do
  match (← get).gatePlace? name with
  | none => pure ()
  | some place => setGateAt place setting

/-- Sets up a template. A name that is not that of a template is passed over. -/
def setTemplate (name : String) (setting : TemplateSetting) : Build Unit := do
  match (← get).templates.get? name with
  | none => pure ()
  | some _ => setting.make name

end Pipeline

end CiPipeline
