import PageProbe.Plugin.Message

/-!
Generators produce values for an argument, detectors judge executions, and brains plan what is asked
of the generators and put their values together. A plugin is given by its answers: what it answers to
a call may depend on the calls before it, and no answer at all means that the plugin breaks down.
-/

namespace PageProbe

open Json (Value)

/-- What a generator is called for: a check of itself, or values. -/
inductive GeneratorCall where
  | check
  | generate (batchSize : Nat) (args : List Value)
deriving Repr, Inhabited

structure Generator where
  name : String
  description : String
  /-- The brains that can steer the generator. Without any it is only asked for plain batches. -/
  compatibleBrains : List String
  /-- The answer to a check after earlier calls. -/
  check : List GeneratorCall → Option Checks
  /-- The values for a batch size and steering arguments after earlier calls. -/
  generate : List GeneratorCall → Nat → List Value → Option (List Value)

structure Detector where
  name : String
  description : String
  check : Option Checks
  /-- The records of a batch with verdicts. -/
  judge : List FuzzRecord → Option (List FuzzRecord)

/-- What a brain has to plan a batch for: the positions that have a generator, the number of values to
    ask for, and what came of the last batch for the same target. -/
structure BrainTask where
  slots : List Nat
  batchSize : Nat
  previous : Option (List FuzzRecord)
deriving Repr, Inhabited

/-- A task of a brain with what the generators produced for it. -/
structure BrainRound where
  task : BrainTask
  generated : List GeneratedBatch
deriving Repr, Inhabited

structure Brain where
  name : String
  description : String
  /-- The generators that the brain can drive; `*` stands for all. -/
  compatible : List String
  check : Option Checks
  /-- The requests to the generators for a task, after earlier rounds. -/
  plan : List BrainRound → BrainTask → Option (List GenerateRequest)
  /-- The tuples of a round, after earlier ones. -/
  assemble : List BrainRound → BrainRound → Option (List (List Value))

namespace Generator

/-- The number of values that a check asks for. -/
def checkSize : Nat := 10

/-- A generator is fit when it has a name and a description and gives as many values as it is
    asked for. -/
def standardChecks (name description : String) (values : List Value) : Checks :=
  Checks.ofList [
    ("name", !name.isEmpty), ("description", !description.isEmpty),
    ("generate", values.length == checkSize)]

end Generator

namespace Detector

/-- The records with the verdicts of a detector that gives one flag a record. Where flags run out,
    records stay as they are. -/
def attach (info : FuzzRecord → Bool → Option String) :
    List Bool → List FuzzRecord → Option (List FuzzRecord)
  | flag :: flags, r :: rs => do
    let text ← info r flag
    return { r with detection := some ⟨flag, text⟩ } :: (← attach info flags rs)
  | _, rs => some rs

/-- A call and a baseline for a detector to try itself on. -/
def sample : List FuzzRecord := [
  { uuid := "\x7b1\x7d", args := some [.string "a", .string "b"],
    response := {
      html := some "<html></htm>", callStack := some [], value := .string "winter is coming",
      error := none },
    detection := none },
  sampleBaseline]
where
  sampleBaseline : FuzzRecord := {
    uuid := "\x7b2\x7d", args := none,
    response := {
      html := some "<html>test</htm>", callStack := some [], value := .null, error := none },
    detection := none }

/-- A detector is fit when it has a name and a description, judges a sample, and has something to say
    about a verdict. -/
private def standardCheck (name description : String) (flags : List FuzzRecord → Option (List Bool))
    (info : FuzzRecord → Bool → Option String) : Option Checks := do
  let found ← flags sample
  let text ← info sample.sampleBaseline false
  return Checks.ofList [
    ("name", !name.isEmpty), ("description", !description.isEmpty), ("detect", !found.isEmpty),
    ("template", !text.isEmpty)]

/-- The detector that gives one flag a record, in order, and a text with each. -/
def ofFlags (name description : String) (flags : List FuzzRecord → Option (List Bool))
    (info : FuzzRecord → Bool → Option String) : Detector where
  name := name
  description := description
  check := standardCheck name description flags info
  judge records := (flags records).bind fun found => attach info found records

end Detector

namespace Brain

def accepts (brain : Brain) (generator : String) : Bool :=
  brain.compatible.any fun g => g == "*" || g == generator

/-- A brain is fit when it has a name and a description and can drive some generator. -/
def standardChecks (name description : String) (compatible : List String) : Checks :=
  Checks.ofList [
    ("name", !name.isEmpty), ("description", !description.isEmpty),
    ("genModulesCompatible", !compatible.isEmpty)]

end Brain
end PageProbe
