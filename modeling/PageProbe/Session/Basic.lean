import PageProbe.Config.Settings
import PageProbe.Session.Model
import PageProbe.Session.Request
import PageProbe.Tree.Leaf

namespace PageProbe

/-- What one observer is told. -/
structure Notice where
  observer : Nat
  update : ModelUpdate
  model : SessionModel
deriving Repr, Inhabited

inductive SessionError where
  | unknownFunction (path : String)
  | noDependency (index : Nat)
  | nothingSelected
  | noModules
deriving DecidableEq, Repr, Inhabited

def SessionError.message : SessionError → String
  | unknownFunction path => "unknown function: " ++ path
  | noDependency index => "the selected function has no dependency #" ++ Number.natural index
  | nothingSelected => "no function selected"
  | noModules => "no modules selected"

structure Session where
  model : SessionModel
  /-- The numbers of those who are told about changes. -/
  observers : List Nat
  /-- The number of the next observer. -/
  nextObserver : Nat
  /-- Everything that observers have been told, the oldest first. -/
  notices : Array Notice
deriving Repr, Inhabited

namespace Session

def start : Session := ⟨SessionModel.blank, [], 0, #[]⟩

/-- The session with one observer more, and the observer's number. -/
def subscribe (s : Session) : Session × Nat :=
  ({ s with observers := s.observers ++ [s.nextObserver], nextObserver := s.nextObserver + 1 },
    s.nextObserver)

/-- Tells an observer nothing more. -/
def unsubscribe (s : Session) (observer : Nat) : Session :=
  { s with observers := s.observers.filter (· != observer) }

/-- Tells every observer about a change that the model already shows. -/
def announce (s : Session) (update : ModelUpdate) : Session :=
  { s with
    notices := s.observers.foldl (fun told o => told.push ⟨o, update, s.model⟩) s.notices }

/-- Chooses the function under test. The functions around it get no arguments yet. -/
def select (s : Session) (tree : FunctionTree) (path : String) : Except SessionError Session :=
  match tree.find? path with
  | none => .error (.unknownFunction path)
  | some leaf =>
    let dependencies := (tree.dependencies leaf).map fun d => ⟨d.path, d.args, []⟩
    .ok (announce { s with
      model := { s.model with selectedFunction := some leaf.path, dependencies := dependencies } }
      .selectedFunction)

/-- Sets the arguments of an enclosing function, counted from the outermost. -/
def setDependencyArgs (s : Session) (index : Nat) (args : List String) :
    Except SessionError Session :=
  if index < s.model.dependencies.length then
    .ok { s with model := { s.model with
      dependencies := s.model.dependencies.modify index fun d => { d with concreteArgs := args } } }
  else .error (.noDependency index)

/-- Sets the arguments of all enclosing functions from some index on. -/
def setAllDependencyArgs (s : Session) (index : Nat) :
    List (List String) → Except SessionError Session
  | [] => .ok s
  | args :: rest =>
    match s.setDependencyArgs index args with
    | .error e => .error e
    | .ok s => s.setAllDependencyArgs (index + 1) rest

/-- Makes a change and announces it, if there is anything to change. -/
def changeIf (s : Session) (differs : Bool) (change : SessionModel → SessionModel)
    (update : ModelUpdate) : Session :=
  if differs then announce { s with model := change s.model } update else s

/-- Shows the modules of a registry. -/
def showModules (s : Session) (r : ModuleRegistry) : Session :=
  let s := s.changeIf (s.model.generators != r.generators)
    (fun m => { m with generators := r.generators }) .generators
  let s := s.changeIf (s.model.detectors != r.detectors)
    (fun m => { m with detectors := r.detectors }) .detectors
  s.changeIf (s.model.brains != r.brains) (fun m => { m with brains := r.brains }) .brains

/-- Chooses the modules for the next run. -/
def chooseModules (s : Session) (modules : SelectedModules) : Session :=
  announce { s with model := { s.model with selectedModules := some modules } } .selectedModules

/-- Shows how far a run is. -/
def showProgress (s : Session) (p : Progress) : Session :=
  announce { s with model := { s.model with progress := p } } p.update

/-- Keeps the records of a run. That is not announced: the progress tells of the end of a run. -/
def storeRecords (s : Session) (records : List FuzzRecord) : Session :=
  { s with model := { s.model with records := records } }

/-- The request for a run with all that is selected. -/
def request (s : Session) (batchSize : Nat) : Except SessionError FuzzRequest :=
  match s.model.selectedFunction, s.model.selectedModules with
  | none, _ => .error .nothingSelected
  | some _, none => .error .noModules
  | some target, some modules => .ok {
      target := target, generators := modules.generators, detector := modules.detector
      brain := modules.brain.getD Config.usualBrain, batchSize := batchSize
      dependencyArgs := s.model.dependencies.map (·.concreteArgs) }

end Session
end PageProbe
