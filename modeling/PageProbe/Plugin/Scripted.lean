import PageProbe.Plugin.Catalog

namespace PageProbe

open Json (Value)

/-- A generator that always starts over with the same values. -/
structure ScriptedGenerator where
  name : String
  description : String
  values : List Value
  /-- What follows the arguments when the generator is steered. Without it steering gives nothing. -/
  steered : Option (List Value)
  /-- Whether it breaks down when it is asked for a plain batch. -/
  breaks : Bool
deriving Repr, Inhabited

namespace ScriptedGenerator

def values? (s : ScriptedGenerator) (batchSize : Nat) (args : List Value) : Option (List Value) :=
  if args.isEmpty then if s.breaks then none else some (s.values.take batchSize)
  else some (match s.steered with
    | some more => (args ++ more).take batchSize
    | none => [])

def generator (s : ScriptedGenerator) : Generator where
  name := s.name
  description := s.description
  compatibleBrains := []
  check _ := (s.values? Generator.checkSize []).map (Generator.standardChecks s.name s.description)
  generate _ := s.values?

end ScriptedGenerator

/-- A detector that gives the same flags for every batch, each with the same text. -/
structure ScriptedDetector where
  name : String
  description : String
  flags : List Bool
  info : String
deriving Repr, Inhabited

def ScriptedDetector.detector (s : ScriptedDetector) : Detector :=
  Detector.ofFlags s.name s.description (fun _ => some s.flags) fun _ _ => some s.info

/-- A brain that asks the same positions each time and makes a tuple of every single value. -/
structure ScriptedBrain where
  name : String
  description : String
  compatible : List String
  /-- The positions to ask; without them all that have a generator. -/
  plan : Option (List Nat)
  /-- What is sent to each generator. -/
  args : List Value
deriving Repr, Inhabited

namespace ScriptedBrain

/-- An argument that stands for the number of records of the last batch. -/
def previousMark : String := "$previous"

private def argument (task : BrainTask) : Value → Value
  | .string s =>
    if s = previousMark then (task.previous.map fun b => Value.ofNat b.length).getD .null
    else .string s
  | v => v

def brain (s : ScriptedBrain) : Brain where
  name := s.name
  description := s.description
  compatible := s.compatible
  check := some (Brain.standardChecks s.name s.description s.compatible)
  plan _ task := some <| (s.plan.getD task.slots).map fun slot =>
    ⟨slot, task.batchSize, s.args.map (argument task)⟩
  assemble _ round := some (round.generated.flatMap fun g => g.batch.map fun v => [v])

end ScriptedBrain
end PageProbe
