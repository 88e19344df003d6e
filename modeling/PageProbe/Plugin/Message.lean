import PageProbe.Json.Value

namespace PageProbe

open Json (Value)

/-- The generator of each argument position: positions in ascending order, each once. -/
abbrev GenerationMap := List (Nat × String)

namespace GenerationMap

/-- The map with the generator of one more position, in place of an earlier one. -/
def insert (slot : Nat) (module : String) : GenerationMap → GenerationMap
  | [] => [(slot, module)]
  | (s, m) :: rest =>
    if slot = s then (slot, module) :: rest
    else if slot < s then (slot, module) :: (s, m) :: rest
    else (s, m) :: insert slot module rest

def ofList (entries : List (Nat × String)) : GenerationMap :=
  entries.foldl (fun m e => insert e.1 e.2 m) []

end GenerationMap

/-- The arguments of one call. Without arguments it is the baseline, for which nothing is called. -/
structure Tuple where
  uuid : String
  args : Option (List Value)
deriving Repr, Inhabited

def Tuple.isBaseline (t : Tuple) : Bool := t.args.isNone

/-- What one execution left behind. -/
structure ExecutionResponse where
  html : Option String
  callStack : Option (List Value)
  value : Value
  error : Option String
deriving Repr, Inhabited

/-- What a detector says about an execution; `result` marks it as suspicious. -/
structure Verdict where
  result : Bool
  info : String
deriving DecidableEq, Repr, Inhabited

/-- An executed tuple with its response and, once a detector has judged it, the verdict. -/
structure FuzzRecord where
  uuid : String
  args : Option (List Value)
  response : ExecutionResponse
  detection : Option Verdict
deriving Repr, Inhabited

def FuzzRecord.isFlagged (r : FuzzRecord) : Bool := (r.detection.map (·.result)).getD false

/-- Asks the generator of a position for a batch. With arguments the generator is steered. -/
structure GenerateRequest where
  id : Nat
  batchSize : Nat
  args : List Value
deriving Repr, Inhabited

/-- Asks a brain for tuples, and shows it what came of the last ones for the same target. -/
structure GenerationRequest where
  batchSize : Nat
  previousBatch : Option (List FuzzRecord)
deriving Repr, Inhabited

inductive Request where
  | checkIntegrity (module : String)
  | generate (request : GenerateRequest)
  | detect (batch : List FuzzRecord)
  | handleGeneration (request : GenerationRequest)
  | initializeBrain (map : GenerationMap)
deriving Repr, Inhabited

def Request.command : Request → String
  | .checkIntegrity _ => "checkIntegrity"
  | .generate _ => "generate"
  | .detect _ => "detect"
  | .handleGeneration _ => "handleGeneration"
  | .initializeBrain _ => "initializeBrain"

/-- The checks that a plugin ran on itself: names in ascending order, each once. -/
abbrev Checks := List (String × Bool)

namespace Checks

def insert (name : String) (ok : Bool) : Checks → Checks
  | [] => [(name, ok)]
  | (n, b) :: rest =>
    if name = n then (name, ok) :: rest
    else if name < n then (name, ok) :: (n, b) :: rest
    else (n, b) :: insert name ok rest

def ofList (entries : List (String × Bool)) : Checks :=
  entries.foldl (fun c e => insert e.1 e.2 c) []

/-- At least one check was run and all of them hold. -/
def passed (c : Checks) : Bool := !c.isEmpty && c.all (·.2)

/-- The names of the checks that do not hold. -/
def failed (c : Checks) : List String := (c.filter fun e => !e.2).map (·.1)

end Checks

structure Characteristics where
  name : String
  description : String
deriving DecidableEq, Repr, Inhabited

structure IntegrityReport where
  fileName : String
  check : Checks
  characteristics : Characteristics
deriving DecidableEq, Repr, Inhabited

def IntegrityReport.passed (r : IntegrityReport) : Bool := r.check.passed

/-- The values that the generator of a position produced. -/
structure GeneratedBatch where
  id : Nat
  batch : List Value
deriving Repr, Inhabited

structure DebugMessage where
  header : String
  content : Value
deriving Repr, Inhabited

inductive ResponseBody where
  | integrity (report : IntegrityReport)
  | generated (batch : GeneratedBatch)
  | detected (records : List FuzzRecord)
  | assembled (tuples : List (List Value))
  | mark (started : GenerationMap)
  | debug (message : DebugMessage)
deriving Repr, Inhabited

/-- The names of the kinds of bodies. The name of the mark is misspelt in the format itself. -/
def ResponseBody.className : ResponseBody → String
  | .integrity _ => "integrityCheck"
  | .generated _ => "genModResponse"
  | .detected _ => "detectModResponse"
  | .assembled _ => "brainModResponse"
  | .mark _ => "intializationMark"
  | .debug _ => "debug"

/-- A message of a plugin. One that is marked as debugging only tells what happens. -/
structure Response where
  isDebug : Bool
  body : ResponseBody
deriving Repr, Inhabited

namespace Response

def result (body : ResponseBody) : Response := ⟨false, body⟩

def debug (header : String) (content : Value) : Response := ⟨true, .debug ⟨header, content⟩⟩

end Response
end PageProbe
