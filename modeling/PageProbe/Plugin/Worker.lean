import PageProbe.Number.Notation
import PageProbe.Plugin.Catalog

/-!
Every plugin lives in a worker of its own, which takes requests one after another and answers each with
messages. A worker whose plugin breaks down stops: it sends nothing more and takes no requests.

A brain's worker owns the workers of its generators. They are started when the brain is initialised
and released when it has answered for a batch.
-/

namespace PageProbe

open Json (Value)

private def unsupported (moduleId : String) (r : Request) : Response :=
  Response.debug (moduleId ++ ": unsupported command") (.string r.command)

private def integrity (file name description : String) (check : Checks) : Response :=
  Response.result (.integrity ⟨file, check, ⟨name, description⟩⟩)

/-- The worker of a generator, with the calls that its plugin has answered. -/
structure GeneratorWorker where
  moduleId : String
  generator : Generator
  calls : List GeneratorCall
  alive : Bool

namespace GeneratorWorker

def start (moduleId : String) (generator : Generator) : GeneratorWorker :=
  ⟨moduleId, generator, [], true⟩

private def stop (w : GeneratorWorker) : GeneratorWorker := { w with alive := false }

def announce (w : GeneratorWorker) (r : GenerateRequest) : Response :=
  Response.debug (w.moduleId ++ ": generate")
    (Value.ofMembers [("id", Value.ofNat r.id), ("batchSize", Value.ofNat r.batchSize)])

/-- Answers a request; a batch is announced before it is made. -/
def handle (w : GeneratorWorker) (r : Request) : GeneratorWorker × List Response :=
  if !w.alive then (w, [])
  else match r with
    | .checkIntegrity file =>
      match w.generator.check w.calls with
      | some check =>
        ({ w with calls := w.calls ++ [.check] },
          [integrity file w.generator.name w.generator.description check])
      | none => (w.stop, [])
    | .generate g =>
      match w.generator.generate w.calls g.batchSize g.args with
      | some batch =>
        ({ w with calls := w.calls ++ [.generate g.batchSize g.args] },
          [w.announce g, Response.result (.generated ⟨g.id, batch⟩)])
      | none => (w.stop, [w.announce g])
    | r => (w, [unsupported w.moduleId r])

end GeneratorWorker

structure DetectorWorker where
  moduleId : String
  detector : Detector
  alive : Bool

namespace DetectorWorker

def start (moduleId : String) (detector : Detector) : DetectorWorker := ⟨moduleId, detector, true⟩

def handle (w : DetectorWorker) (r : Request) : DetectorWorker × List Response :=
  if !w.alive then (w, [])
  else match r with
    | .checkIntegrity file =>
      match w.detector.check with
      | some check => (w, [integrity file w.detector.name w.detector.description check])
      | none => ({ w with alive := false }, [])
    | .detect batch =>
      match w.detector.judge batch with
      | some records => (w, [Response.result (.detected records)])
      | none => ({ w with alive := false }, [])
    | r => (w, [unsupported w.moduleId r])

end DetectorWorker

/-- The worker of a brain, with the rounds that its plugin has been through and the workers of its
    generators by position, in ascending order. -/
structure BrainWorker where
  moduleId : String
  brain : Brain
  catalog : Catalog
  rounds : List BrainRound
  slots : List (Nat × GeneratorWorker)
  alive : Bool

namespace BrainWorker

def start (moduleId : String) (brain : Brain) (catalog : Catalog) : BrainWorker :=
  ⟨moduleId, brain, catalog, [], [], true⟩

/-- The worker for a position, or what is against it. -/
def startGenerator (w : BrainWorker) (slot : Nat) (generator : String) :
    Except String GeneratorWorker :=
  if w.brain.accepts generator then
    match w.catalog.generator generator slot with
    | .ok g => .ok (GeneratorWorker.start generator g)
    | .error u => .error u.message
  else .error (generator ++ " is not compatible with " ++ w.moduleId)

/-- Starts a generator for every position of a map. Positions for which that fails are left out of the
    answer, and a message tells why. -/
def initialise (w : BrainWorker) (map : GenerationMap) : BrainWorker × List Response :=
  let attempts := map.map fun (slot, generator) => (slot, generator, w.startGenerator slot generator)
  let rejected := attempts.filterMap fun (_, _, attempt) =>
    match attempt with
    | .ok _ => none
    | .error why => some (Response.debug (w.moduleId ++ ": generator rejected") (.string why))
  let slots := attempts.filterMap fun (slot, _, attempt) =>
    match attempt with
    | .ok g => some (slot, g)
    | .error _ => none
  let started := slots.map fun (slot, g) => (slot, g.moduleId)
  ({ w with slots := slots }, rejected ++ [Response.result (.mark started)])

/-- The batch among the answers of a generator, and the messages before it. -/
def readBatch : List Response → List Response × Option GeneratedBatch
  | [] => ([], none)
  | ⟨true, body⟩ :: rest =>
    let (before, batch) := readBatch rest
    (⟨true, body⟩ :: before, batch)
  | ⟨false, .generated batch⟩ :: _ => ([], some batch)
  | _ :: rest => readBatch rest

/-- Asks the generators for one batch each, in the order of their positions. Of several requests to
    one position the first is answered in time. -/
def collect (requests : List GenerateRequest) :
    List (Nat × GeneratorWorker) → List Response × List GeneratedBatch
  | [] => ([], [])
  | (slot, g) :: rest =>
    let (messages, batches) := collect requests rest
    match requests.find? (·.id == slot) with
    | none => (messages, batches)
    | some r =>
      let (before, batch) := readBatch (g.handle (.generate r)).2
      (before ++ messages, batch.toList ++ batches)

def missing (w : BrainWorker) (requests : List GenerateRequest)
    (batches : List GeneratedBatch) : List Response :=
  if batches.length = requests.length then []
  else [Response.debug (w.moduleId ++ ": missing generator replies") (Value.ofMembers [
    ("expected", .array (requests.map fun r => Value.ofNat r.id)),
    ("received", Value.ofNat batches.length)])]

/-- Makes a batch of tuples. Requests to positions without a generator are not sent. -/
def makeBatch (w : BrainWorker) (r : GenerationRequest) : BrainWorker × List Response :=
  let task : BrainTask := ⟨w.slots.map (·.1), r.batchSize, r.previousBatch⟩
  match w.brain.plan w.rounds task with
  | none => ({ w with slots := [], alive := false }, [])
  | some plan =>
    let requests := plan.filter fun p => w.slots.any fun s => s.1 == p.id
    let (relayed, batches) := collect requests w.slots
    let before := relayed ++ w.missing requests batches
    let round : BrainRound := ⟨task, batches⟩
    match w.brain.assemble w.rounds round with
    | none => ({ w with slots := [], alive := false }, before)
    | some tuples =>
      ({ w with slots := [], rounds := w.rounds ++ [round] },
        before ++ [Response.result (.assembled tuples)])

def handle (w : BrainWorker) (r : Request) : BrainWorker × List Response :=
  if !w.alive then (w, [])
  else match r with
    | .checkIntegrity file =>
      match w.brain.check with
      | some check => (w, [integrity file w.brain.name w.brain.description check])
      | none => ({ w with alive := false }, [])
    | .initializeBrain map => w.initialise map
    | .handleGeneration g => w.makeBatch g
    | r => (w, [unsupported w.moduleId r])

end BrainWorker

inductive Worker where
  | generator (w : GeneratorWorker)
  | detector (w : DetectorWorker)
  | brain (w : BrainWorker)

/-- Why a worker gave no result. -/
inductive WorkerError where
  | gone (moduleId command : String)
  | stopped (moduleId : String)
  /-- Nothing came within the given time, in milliseconds. -/
  | silent (moduleId : String) (deadline : Nat)
deriving DecidableEq, Repr, Inhabited

/-- A time in milliseconds, in the largest unit of which there is at least one. -/
def durationText (milliseconds : Nat) : String :=
  if milliseconds = 0 then "0ns"
  else if milliseconds < 1000 then Number.natural milliseconds ++ "ms"
  else Number.places ((⟨milliseconds, -3⟩ : Decimal).trim 3) ++ "s"

def WorkerError.message : WorkerError → String
  | gone moduleId command => "worker " ++ moduleId ++ " is gone, cannot send " ++ command
  | stopped moduleId => "worker " ++ moduleId ++ " stopped before replying"
  | silent moduleId deadline =>
    "worker " ++ moduleId ++ " did not reply within " ++ durationText deadline

namespace Worker

/-- Starts the plugin of a module; the position matters to generators only. -/
def start (catalog : Catalog) (kind : ModuleKind) (moduleId : String) (slot : Nat) :
    Except UnknownModule Worker :=
  match kind with
  | .generation =>
    (catalog.generator moduleId slot).map fun g => .generator (GeneratorWorker.start moduleId g)
  | .detection => (catalog.detector moduleId).map fun d => .detector (DetectorWorker.start moduleId d)
  | .brain => (catalog.brain moduleId).map fun b => .brain (BrainWorker.start moduleId b catalog)

def moduleId : Worker → String
  | generator w => w.moduleId
  | detector w => w.moduleId
  | brain w => w.moduleId

def alive : Worker → Bool
  | generator w => w.alive
  | detector w => w.alive
  | brain w => w.alive

/-- Answers a request. -/
def handle : Worker → Request → Worker × List Response
  | generator w, r => (w.handle r).map .generator id
  | detector w, r => (w.handle r).map .detector id
  | brain w, r => (w.handle r).map .brain id

/-- What is had by waiting for a time when nothing comes. -/
def wait (w : Worker) (deadline : Nat) : WorkerError :=
  if w.alive then .silent w.moduleId deadline else .stopped w.moduleId

/-- Posts a request, and waits for its result for a time. Messages that only tell what happens are passed
    over. -/
def ask (w : Worker) (r : Request) (deadline : Nat) : Worker × Except WorkerError ResponseBody :=
  if !w.alive then (w, .error (.gone w.moduleId r.command))
  else
    let (w, messages) := w.handle r
    match messages.find? (!·.isDebug) with
    | some m => (w, .ok m.body)
    | none => (w, .error (w.wait deadline))

end Worker
end PageProbe
