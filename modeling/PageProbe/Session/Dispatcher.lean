import PageProbe.Execution.Context
import PageProbe.Session.Basic

/-!
A run goes through these stages: the brain is started and asked for argument tuples; the tuples and, at
the end, the baseline are executed one at a time, each in a context of its own; and the detector judges
what came of them. Only the failure of a stage ends a run early. What goes wrong in one execution is
written into its record.
-/

namespace PageProbe

open Json

/-- Where a run is. -/
inductive DispatchState where
  | idle
  | initializing (brain : String)
  | awaitingBatch
  /-- The tuple at `cursor` of `total` tuples is executed. -/
  | executing (cursor total : Nat)
  | awaitingVerdicts
deriving DecidableEq, Repr, Inhabited

def DispatchState.write : DispatchState → Document
  | idle => .object [("state", .string "idle")]
  | initializing brain => .object [("state", .string "initializing"), ("brain", .string brain)]
  | awaitingBatch => .object [("state", .string "awaiting_brain_batch")]
  | executing cursor total =>
    .object [("state", .string "fuzzing"), ("cursor", .ofNat cursor), ("total", .ofNat total)]
  | awaitingVerdicts => .object [("state", .string "awaiting_detection")]

/-- Why a run came to nothing. -/
inductive DispatchError where
  | target (error : TargetError)
  | module (error : UnknownModule)
  | worker (error : WorkerError)
  | unexpectedReply (brain className command : String)
  | noGenerator (path : String)
deriving DecidableEq, Repr, Inhabited

def DispatchError.message : DispatchError → String
  | target e => e.message
  | module e => e.message
  | worker e => e.message
  | unexpectedReply brain className command =>
    "brain " ++ brain ++ " answered " ++ className ++ " to " ++ command
  | noGenerator path => "no generator could be started for " ++ path

/-- A supply of ids: the text of every id by its number, and the number of those already given out. -/
structure IdSupply where
  text : Nat → String
  issued : Nat

namespace IdSupply

def next (s : IdSupply) : IdSupply × String := ({ s with issued := s.issued + 1 }, s.text s.issued)

/-- Gives every argument list an id of its own. -/
def tag (s : IdSupply) : List (Option (List Value)) → IdSupply × List Tuple
  | [] => (s, [])
  | args :: rest =>
    let (s, uuid) := s.next
    let (s, tuples) := s.tag rest
    (s, ⟨uuid, args⟩ :: tuples)

end IdSupply

structure Dispatcher where
  catalog : Catalog
  ids : IdSupply
  /-- The time for one execution, in milliseconds. -/
  tupleDeadline : Nat
  /-- The time for one answer of the brain or the detector, in milliseconds. -/
  stageDeadline : Nat
  state : DispatchState
  injector : Injector
  session : Session
  brain : Option Worker
  detector : Option Worker
  /-- The records of the last run on every target. -/
  previous : List (String × List FuzzRecord)

namespace Dispatcher

/-- The time for one answer unless another one is given, in milliseconds. -/
def usualStageDeadline : Nat := 30000

def start (catalog : Catalog) (ids : IdSupply) (tupleDeadline : Nat) : Dispatcher := {
  catalog := catalog, ids := ids, tupleDeadline := tupleDeadline
  stageDeadline := usualStageDeadline, state := .idle, injector := Injector.empty
  session := Session.start, brain := none, detector := none, previous := [] }

/-- The records of the last run on a target. -/
def previousBatch (d : Dispatcher) (target : String) : Option (List FuzzRecord) :=
  d.previous.lookup target

/-- Lets go of the workers and of the target. -/
def release (d : Dispatcher) : Dispatcher :=
  { d with brain := none, detector := none, injector := d.injector.clear, state := .idle }

def showProgress (d : Dispatcher) (p : Progress) : Dispatcher :=
  { d with session := d.session.showProgress p }

/-- A part of a run, which may fail. What it did before it failed stays done. -/
abbrev Stage := ExceptT DispatchError (StateM Dispatcher)

/-- Posts a request to the brain, and waits for its result. -/
def askBrain (brain : Worker) (r : Request) : Stage (Worker × ResponseBody) := do
  let (brain, reply) := brain.ask r (← get).stageDeadline
  modify fun d => { d with brain := some brain }
  match reply with
  | .ok body => return (brain, body)
  | .error e => throw (.worker e)

def known (found : Except UnknownModule α) : Stage α :=
  match found with
  | .ok a => return a
  | .error e => throw (.module e)

/-- Starts the brain with the generators. Some generators may fail to start, though not all. -/
def startBrain (r : FuzzRequest) : Stage Worker := do
  modify fun d => { d with state := .initializing r.brain }
  let d ← get
  let brain ← known (d.catalog.brain r.brain)
  let ask := Request.initializeBrain r.generators
  let (brain, reply) ← askBrain (.brain (BrainWorker.start r.brain brain d.catalog)) ask
  match reply with
  | .mark started =>
    if started.isEmpty && !r.generators.isEmpty then throw (.noGenerator r.target)
    return brain
  | other => throw (.unexpectedReply r.brain other.className ask.command)

/-- Starts the detector, so that a missing one is noticed before anything is executed. -/
def startDetector (r : FuzzRequest) : Stage Worker := do
  let detector ← known ((← get).catalog.detector r.detector)
  let worker := Worker.detector (DetectorWorker.start r.detector detector)
  modify fun d => { d with detector := some worker }
  return worker

/-- Asks the brain for argument lists. -/
def askBatch (brain : Worker) (r : FuzzRequest) : Stage (List (List Value)) := do
  modify fun d => { d with state := .awaitingBatch }
  let ask := Request.handleGeneration ⟨r.batchSize, (← get).previousBatch r.target⟩
  let (_, reply) ← askBrain brain ask
  match reply with
  | .assembled tuples => return tuples
  | other => throw (.unexpectedReply r.brain other.className ask.command)

/-- Makes the batch of argument lists with the baseline behind them, and hands it to the injector. -/
def loadBatch (d : Dispatcher) (tuples : List (List Value)) : Dispatcher × List Tuple :=
  let (ids, batch) := d.ids.tag (tuples.map some ++ [none])
  ({ d with ids := ids, injector := d.injector.load batch }, batch)

/-- Executes one tuple in a context of its own, which is torn down when its report has come or is not
    waited for any more. Without a report in time the execution counts as timed out. Afterwards the
    tuple does not wait for its injection any more, whether the context asked for the script or
    not. -/
def execute (d : Dispatcher) (l : Launcher σ) (memory : σ) (t : Tuple) :
    Dispatcher × σ × ExecutionReport :=
  let (injector, memory, launched) := (l.launch memory).run d.injector.activate
  let (injector, memory) := match launched with
    | .failed _ => (injector, memory)
    | .reporting _ => (l.teardown memory).run injector
  let report := (launched.reportOf t.uuid d.tupleDeadline).getD (ExecutionReport.timedOut t.uuid)
  ({ d with injector := injector.deactivate.settle t.uuid }, memory, report)

/-- The record of an execution that nobody has judged. -/
def recordOf (t : Tuple) (report : ExecutionReport) : FuzzRecord :=
  ⟨t.uuid, t.args, report.response, none⟩

/-- Executes tuples one after another, of which the first is at `cursor` of `total`. In the progress
    the detection counts as one step more. -/
def executeAll (l : Launcher σ) (total : Nat) (cursor : Nat) (d : Dispatcher) (memory : σ) :
    List Tuple → Dispatcher × σ × List FuzzRecord
  | [] => (d, memory, [])
  | t :: rest =>
    let d := { d with state := .executing cursor total }
    let (d, memory, report) := d.execute l memory t
    let d := d.showProgress (Progress.ofSteps (cursor + 1) (total + 1))
    let (d, memory, records) := executeAll l total (cursor + 1) d memory rest
    (d, memory, recordOf t report :: records)

/-- Keeps the records of a run for the next one on the same target. -/
def keep (d : Dispatcher) (target : String) (records : List FuzzRecord) : Dispatcher :=
  { d with previous := (target, records) :: d.previous.filter (·.1 != target) }

/-- The verdict goes to the first record with the id. -/
def giveVerdict (judged : FuzzRecord) : List FuzzRecord → List FuzzRecord
  | [] => []
  | r :: rest =>
    if r.uuid = judged.uuid then { r with detection := judged.detection } :: rest
    else r :: giveVerdict judged rest

/-- The records with the verdicts of what a detector answers; the last verdict for an id counts. -/
def merge (records judged : List FuzzRecord) : List FuzzRecord :=
  judged.foldl (fun records j => giveVerdict j records) records

/-- Has the detector judge the records. An answer of another kind leaves them as they are. -/
def judge (detector : Worker) (records : List FuzzRecord) : Stage (List FuzzRecord) := do
  modify fun d => { d with state := .awaitingVerdicts }
  let (detector, reply) := detector.ask (.detect records) (← get).stageDeadline
  modify fun d => { d with detector := some detector }
  match reply with
  | .ok (.detected judged) => return merge records judged
  | .ok _ => return records
  | .error e => throw (.worker e)

/-- Shows the records of a run, and its end. -/
def finish (d : Dispatcher) (records : List FuzzRecord) : Dispatcher :=
  let d := { d with session := d.session.storeRecords records }
  d.showProgress Progress.whole

/-- What comes before the executions: the detector and the argument lists. -/
def prepare (r : FuzzRequest) : Stage (Worker × List (List Value)) := do
  let brain ← startBrain r
  let detector ← startDetector r
  let tuples ← askBatch brain r
  return (detector, tuples)

/-- What comes after the executions. The records are kept before they are judged. -/
def conclude (r : FuzzRequest) (detector : Worker) (records : List FuzzRecord) :
    Stage FuzzOutcome := do
  modify fun d => d.keep r.target records
  let judged ← judge detector records
  modify fun d => d.finish judged
  return ⟨r.target, judged⟩

/-- A run on a target that is already chosen. -/
def attempt (d : Dispatcher) (l : Launcher σ) (memory : σ) (r : FuzzRequest) :
    Dispatcher × σ × Except DispatchError FuzzOutcome :=
  match (prepare r).run.run d with
  | (.error e, d) => (d, memory, .error e)
  | (.ok (detector, tuples), d) =>
    let (d, batch) := d.loadBatch tuples
    let (d, memory, records) := executeAll l batch.length 0 d memory batch
    let (outcome, d) := (conclude r detector records).run.run d
    (d, memory, outcome)

/-- Makes a run on a function of a tree. Whatever it comes to, the dispatcher is idle afterwards, and
    after a failure it has let go of everything. -/
def dispatch (d : Dispatcher) (tree : FunctionTree) (l : Launcher σ) (memory : σ)
    (r : FuzzRequest) : Dispatcher × σ × Except DispatchError FuzzOutcome :=
  let d := d.release.showProgress Progress.start
  match d.injector.select tree r.target r.dependencyArgs with
  | .error e => (d, memory, .error (.target e))
  | .ok injector =>
    let (d, memory, outcome) := attempt { d with injector := injector } l memory r
    match outcome with
    | .ok outcome => ({ d with state := .idle }, memory, .ok outcome)
    | .error e => (d.release, memory, .error e)

end Dispatcher
end PageProbe
