import PageProbe.Plugin.Registry
import PageProbe.Plugin.Wire
import PageProbe.Session.Progress

namespace PageProbe

open Json

/-- A function around the selected one, and what to call it with. -/
structure Dependency where
  path : String
  params : List String
  /-- The texts of the arguments. -/
  concreteArgs : List String
deriving DecidableEq, Repr, Inhabited

structure SelectedModules where
  generators : GenerationMap
  /-- Without a brain the usual one is taken. -/
  brain : Option String
  detector : String
deriving DecidableEq, Repr, Inhabited

structure SessionModel where
  selectedFunction : Option String
  /-- The functions around the selected one, outermost first. -/
  dependencies : List Dependency
  generators : List ModuleDescriptor
  detectors : List ModuleDescriptor
  brains : List ModuleDescriptor
  selectedModules : Option SelectedModules
  progress : Progress
  /-- The records of the last run. -/
  records : List FuzzRecord
deriving Repr, Inhabited

/-- The model of a session in which nothing has happened. -/
def SessionModel.blank : SessionModel := {
  selectedFunction := none, dependencies := [], generators := [], detectors := [], brains := [],
  selectedModules := none, progress := Progress.start, records := [] }

/-- What is announced about a model. -/
inductive ModelUpdate where
  | selectedFunction
  | generators
  | detectors
  | brains
  | selectedModules
  | progress (value : Progress)
  /-- A run has come to its end. -/
  | finished
deriving DecidableEq, Repr, Inhabited

namespace Progress

def write (p : Progress) : Document := .number (.double p.toDouble)

/-- What is announced when a run is that far. -/
def update (p : Progress) : ModelUpdate := if p.isWhole then .finished else .progress p

end Progress

def Dependency.write (d : Dependency) : Document :=
  .object [
    ("path", .string d.path), ("params", .strings d.params),
    ("concreteArgs", .strings d.concreteArgs)]

def SelectedModules.write (m : SelectedModules) : Document :=
  .object [
    ("generators", GenerationMap.write m.generators),
    ("brain", Document.nullable .string m.brain), ("detector", .string m.detector)]

def SessionModel.write (m : SessionModel) : Document :=
  let modules (ds : List ModuleDescriptor) : Document := .array (ds.map ModuleDescriptor.write)
  .object [
    ("selectedFunction", Document.nullable .string m.selectedFunction),
    ("dependencies", .array (m.dependencies.map Dependency.write)),
    ("genModules", modules m.generators), ("detectModules", modules m.detectors),
    ("brainModules", modules m.brains),
    ("selectedModules", Document.nullable SelectedModules.write m.selectedModules),
    ("fuzzingProgress", m.progress.write), ("fuzzingData", FuzzRecord.writeAll m.records)]

namespace ModelUpdate

def name : ModelUpdate → String
  | selectedFunction => "selectedFunction"
  | generators => "genModules"
  | detectors => "detectModules"
  | brains => "brainModules"
  | selectedModules => "selectedModules"
  | progress _ => "fuzzingInProgress"
  | finished => "fuzzingFinished"

def write (u : ModelUpdate) : Document :=
  let value := match u with
    | progress p => [("progress", p.write)]
    | _ => []
  .object (("update", .string u.name) :: value)

end ModelUpdate
end PageProbe
