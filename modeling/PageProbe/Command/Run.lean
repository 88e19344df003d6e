import PageProbe.Command.Line
import PageProbe.Config.Load
import PageProbe.Execution.Runner
import PageProbe.Json.Printer
import PageProbe.Page.Load
import PageProbe.Report.Outcome
import PageProbe.Report.Registry
import PageProbe.Report.Settings
import PageProbe.Report.Tree
import PageProbe.Session.Dispatcher

namespace PageProbe.Command

open Json

/-- Where a command is run. -/
structure Surroundings (m : Type → Type) where
  files : FileAccess m
  /-- The directory from where relative paths are seen, as an absolute path. -/
  directory : String
  ids : IdSupply
  /-- The programs that runners can name. -/
  programs : Programs

/-- What comes of a command: its exit code, what it prints, and its messages, line by line. -/
structure Answer where
  code : Nat
  output : String
  messages : List String
deriving DecidableEq, Repr, Inhabited

inductive Failure where
  | causes (causes : List Cause)
  | invalidConfig (causes : List Cause)
deriving DecidableEq, Repr, Inhabited

def Failure.lines : Failure → List String
  | causes cs => Cause.report cs
  | invalidConfig cs => ["Config validation failed: " ++ Cause.story cs]

variable {m : Type → Type} [Monad m]

/-- A part of a command, which may fail, and which adds messages. -/
abbrev Task (m : Type → Type) := ExceptT Failure (StateT (List String) m)

private def fail (causes : List Cause) : Task m α := throw (.causes causes)

private def failWith (message : String) : Task m α := fail [.words message]

private def orCauses (result : Except ε α) (causes : ε → List Cause) : Task m α :=
  match result with
  | .ok a => return a
  | .error e => fail (causes e)

private def orMessage (result : Except ε α) (message : ε → String) : Task m α :=
  orCauses result fun e => [.words (message e)]

private def tell (line : String) : Task m Unit := modify (· ++ [line])

/-- What a monad brings, as a task that cannot fail. -/
private def fetch (act : m α) : Task m α := monadLift act

/-- The absolute path of something that has to be there. -/
private def locate (s : Surroundings m) (path : String) : Task m String := do
  let path := Location.join s.directory path
  if ← fetch (s.files.pathExists path) then return path
  failWith ("Path does not exist: " ++ path)

private def loadSettings (s : Surroundings m) (directory : String) (config : Option String) :
    Task m Settings := do
  let settings ← orCauses (← fetch (Config.settings s.files directory config)) fun e =>
    .words "failed to load configuration" :: e.causes
  return settings

/-- The settings for a page, from the directory in which it lies unless a file is named. -/
private def settingsFor (s : Surroundings m) (path : String) (config : Option String) :
    Task m Settings := do
  let directory := if ← fetch (s.files.isFile path) then Location.parent path else path
  let settings ← loadSettings s directory config
  if let some source := settings.source then tell ("Using config: " ++ source)
  return settings

private def loadPage (s : Surroundings m) (settings : Settings) (path : String) :
    Task m LoadedPage := do
  orCauses (← fetch (LoadedPage.load s.files settings path)) LoadError.causes

private def findFunction (tree : FunctionTree) (path : String) : Task m Leaf :=
  match tree.find? path with
  | some leaf => return leaf
  | none => failWith ("unknown function: " ++ path)

/-- Prints a document over several lines. -/
private def prettyLine (d : Document) : String := d.pretty ++ "\n"

private def listFunctions (s : Surroundings m) (path : String) (format : OutputFormat)
    (config : Option String) : Task m String := do
  let path ← locate s path
  let settings ← settingsFor s path config
  let analysis := (← loadPage s settings path).analyse settings
  for failure in analysis.failures do
    tell (failure.file ++ ": " ++ Cause.story failure.error.causes)
  return match format with
    | .text => analysis.tree.text ++ "\n" ++ AnalysisReport.table analysis.reports
    | .json => prettyLine analysis.tree.write

/-- The tuple for arguments that are given as a JSON text. -/
private def tupleOf (ids : IdSupply) (args : Option String) : Task m Tuple :=
  let uuid := ids.next.2
  match args with
  | none => return ⟨uuid, none⟩
  | some text =>
    match (Decoder.array Decoder.value).ofText text with
    | some values => return ⟨uuid, some values⟩
    | none => fail [.words "--args must be a JSON array", .json none]

private def rewriteScript (s : Surroundings m) (o : InjectOptions) : Task m String := do
  let path ← locate s o.path
  let settings ← settingsFor s path o.config
  let page ← loadPage s settings path
  let tree := (page.analyse settings).tree
  let leaf ← findFunction tree o.function
  let some script := page.scripts.find? (·.name == leaf.scriptName)
    | failWith ("script " ++ leaf.scriptName ++ " is not loaded")
  let tuple ← tupleOf s.ids o.args
  orMessage (previewInjection tree o.function (o.dependencyArgs.map splitArguments) tuple
    script.source) PreviewError.message

private def listModules (s : Surroundings m) (format : OutputFormat) : Task m String := do
  let settings ← settingsFor s s.directory none
  let registry := ModuleRegistry.index (Catalog.builtin settings.seed)
  return match format with
    | .text => registry.text
    | .json => prettyLine registry.write

/-- Makes sure that the id of a module is one of its kind, and that the module is registered. -/
private def requireModule (registry : ModuleRegistry) (kind : ModuleKind) (id : String) :
    Task m Unit := do
  if ModuleKind.ofId? id != some kind then
    failWith (id ++ " is not a " ++ kind.title ++ " module id")
  if !registry.isRegistered kind id then failWith ("module " ++ id ++ " is not registered")

private def chooseBatchSize (o : FuzzOptions) (settings : Settings) : Task m Nat := do
  let size := o.batchSize.getD settings.batchSize
  if size = 0 ∨ size > maxBatchSize then
    failWith ("--batch-size must be between 1 and " ++ Number.natural maxBatchSize)
  return size

private def chooseRunner (o : FuzzOptions) (settings : Settings) : Task m Runner :=
  match o.runner, settings.runner with
  | some program, _ => return ⟨program, o.runnerArgs⟩
  | none, some runner => return runner
  | none, none =>
    failWith "no runner configured; pass --runner or set \"runner\" in the config file"

/-- The generators by position. Unless some are given every parameter gets the same one. -/
private def chooseGenerators (o : FuzzOptions) (leaf : Leaf) : GenerationMap :=
  let ids :=
    if o.generators.isEmpty then leaf.args.map fun _ => BrokenHtml.moduleId else o.generators
  ids.zipIdx.map fun (id, slot) => (slot, id)

/-- The session of a run with everything selected. -/
private def selectAll (session : Session) (registry : ModuleRegistry) (tree : FunctionTree)
    (o : FuzzOptions) (modules : SelectedModules) : Except SessionError Session := do
  let session ← (session.showModules registry).select tree o.function
  let session ← session.setAllDependencyArgs 0 (o.dependencyArgs.map splitArguments)
  return session.chooseModules modules

private def fuzzFunction (s : Surroundings m) (o : FuzzOptions) : Task m String := do
  let path ← locate s o.path
  let settings ← settingsFor s path o.config
  let batchSize ← chooseBatchSize o settings
  let detector := o.detector.getD settings.detector
  let brain := o.brain.getD settings.brain
  let runner ← chooseRunner o settings
  let page ← loadPage s settings path
  let tree := (page.analyse settings).tree
  let generators := chooseGenerators o (← findFunction tree o.function)
  let catalog := Catalog.builtin settings.seed
  let registry := ModuleRegistry.index catalog
  for (_, id) in generators do
    requireModule registry .generation id
  requireModule registry .detection detector
  requireModule registry .brain brain
  let d := Dispatcher.start catalog s.ids (o.timeout.getD settings.tupleTimeout)
  let modules : SelectedModules := ⟨generators, some brain, detector⟩
  let session ← orMessage (selectAll d.session registry tree o modules) SessionError.message
  let request ← orMessage (session.request batchSize) SessionError.message
  let launch := runner.launch s.programs page.resources settings.chunkSize
  let (_, _, result) := Dispatcher.dispatch { d with session := session } tree launch () request
  let outcome ← orMessage result DispatchError.message
  return match o.format with
    | .text => outcome.text
    | .json => prettyLine outcome.write

private def checkConfig (s : Surroundings m) (path : Option String) : Task m String := do
  match ← fetch (Config.settings s.files s.directory path) with
  | .error e => throw (.invalidConfig e.causes)
  | .ok settings =>
    return match settings.source with
      | some source => "Config valid: " ++ source ++ "\n"
      | none => "No config file found. Using defaults.\n"

private def printConfig (s : Surroundings m) (path : Option String) : Task m String := do
  return (← loadSettings s s.directory path).text

private def task (s : Surroundings m) : Command → Task m String
  | .analyze path format config => listFunctions s path format config
  | .inject options => rewriteScript s options
  | .plugins format => listModules s format
  | .fuzz options => fuzzFunction s options
  | .validateConfig path => checkConfig s path
  | .showConfig path => printConfig s path

/-- Runs a command. -/
def run (s : Surroundings m) (c : Command) : m Answer := do
  let (result, messages) ← ((task s c).run).run []
  return match result with
    | .ok output => ⟨0, output, messages⟩
    | .error failure => ⟨1, "", messages ++ failure.lines⟩

/-- What comes of a command line that leads to no command. -/
def Stop.answer : Stop → Answer
  | .help => ⟨0, "", []⟩
  | .misuse => ⟨2, "", []⟩

/-- Runs the command that a command line gives. -/
def runLine (s : Surroundings m) (args : List String) : m Answer :=
  match ofArguments args with
  | .ok c => c.run s
  | .error stop => return stop.answer

end PageProbe.Command
