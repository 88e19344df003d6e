import PageProbe.Json.Document
import PageProbe.Plugin.Worker

namespace PageProbe

open Json

structure ModuleDescriptor where
  moduleId : String
  displayName : String
  description : String
deriving DecidableEq, Repr, Inhabited

inductive RejectionReason where
  | unknown (error : UnknownModule)
  | worker (error : WorkerError)
  | unexpectedReply
  | failedChecks (names : List String)
deriving DecidableEq, Repr, Inhabited

def RejectionReason.message : RejectionReason → String
  | unknown e => e.message
  | worker e => e.message
  | unexpectedReply => "unexpected reply to integrity check"
  | failedChecks names => "failed checks: " ++ String.intercalate ", " names

structure Rejection where
  moduleId : String
  kind : ModuleKind
  reason : RejectionReason
deriving DecidableEq, Repr, Inhabited

structure ModuleRegistry where
  generators : List ModuleDescriptor
  detectors : List ModuleDescriptor
  brains : List ModuleDescriptor
  rejected : List Rejection
deriving DecidableEq, Repr, Inhabited

namespace ModuleRegistry

def empty : ModuleRegistry := ⟨[], [], [], []⟩

/-- The time for a plugin to check itself, in milliseconds. -/
def checkDeadline : Nat := 5000

/-- Starts a plugin and has it check itself. -/
def examine (catalog : Catalog) (kind : ModuleKind) (id : String) :
    Except RejectionReason ModuleDescriptor :=
  match Worker.start catalog kind id 0 with
  | .error e => .error (.unknown e)
  | .ok worker =>
    match (worker.ask (.checkIntegrity id) checkDeadline).2 with
    | .error e => .error (.worker e)
    | .ok (.integrity report) =>
      if report.passed then
        .ok ⟨report.fileName, report.characteristics.name, report.characteristics.description⟩
      else .error (.failedChecks report.check.failed)
    | .ok _ => .error .unexpectedReply

/-- The modules of a kind that pass, and those that do not. -/
def sort (catalog : Catalog) (kind : ModuleKind) (ids : List String) :
    List ModuleDescriptor × List Rejection :=
  let results := ids.map fun id => (id, examine catalog kind id)
  (results.filterMap fun (_, r) => r.toOption,
    results.filterMap fun (id, r) =>
      match r with
      | .ok _ => none
      | .error reason => some ⟨id, kind, reason⟩)

/-- The registry of a catalog. -/
def index (catalog : Catalog) : ModuleRegistry :=
  let (generators, badGenerators) := sort catalog .generation (catalog.generators.map (·.1))
  let (detectors, badDetectors) := sort catalog .detection (catalog.detectors.map (·.1))
  let (brains, badBrains) := sort catalog .brain (catalog.brains.map (·.1))
  ⟨generators, detectors, brains, badGenerators ++ badDetectors ++ badBrains⟩

def descriptors (r : ModuleRegistry) : ModuleKind → List ModuleDescriptor
  | .generation => r.generators
  | .detection => r.detectors
  | .brain => r.brains

def isRegistered (r : ModuleRegistry) (kind : ModuleKind) (id : String) : Bool :=
  (r.descriptors kind).any (·.moduleId == id)

end ModuleRegistry

def ModuleDescriptor.write (d : ModuleDescriptor) : Document :=
  .object [
    ("moduleFile", .string d.moduleId), ("displayName", .string d.displayName),
    ("description", .string d.description)]

def Rejection.write (r : Rejection) : Document :=
  .object [
    ("module_file", .string r.moduleId), ("kind", .string r.kind.text),
    ("reason", .string r.reason.message)]

def ModuleRegistry.write (r : ModuleRegistry) : Document :=
  .object [
    ("generators", .array (r.generators.map ModuleDescriptor.write)),
    ("detectors", .array (r.detectors.map ModuleDescriptor.write)),
    ("brains", .array (r.brains.map ModuleDescriptor.write)),
    ("rejected", .array (r.rejected.map Rejection.write))]

end PageProbe
