import PageProbe.Plugin.Kinds

namespace PageProbe.Combinations

open Json (Value)

def moduleId : String := "noBrainModule"

/-- All combinations of one value a column. The last column changes fastest. Without columns there is
    one empty combination, and with an empty column there is none. -/
def product (columns : List (List α)) : List (List α) :=
  columns.foldl (fun tuples column => tuples.flatMap fun t => column.map fun v => t ++ [v]) [[]]

/-- Puts a batch in front of the batches with the same position or a later one. -/
def place (g : GeneratedBatch) : List GeneratedBatch → List GeneratedBatch
  | [] => [g]
  | h :: rest => if g.id ≤ h.id then g :: h :: rest else h :: place g rest

/-- The batches in the order of their positions; batches of one position keep their order. -/
def byPosition : List GeneratedBatch → List GeneratedBatch
  | [] => []
  | g :: rest => place g (byPosition rest)

def plan (task : BrainTask) : List GenerateRequest :=
  task.slots.map fun slot => ⟨slot, task.batchSize, []⟩

def assemble (generated : List GeneratedBatch) : List (List Value) :=
  product ((byPosition generated).map (·.batch))

def name : String := "no Brainer"

def description : String := "No treatment on fuzzing data sessions"

/-- It asks every generator for a plain batch and makes a tuple of every combination of values. -/
def brain : Brain where
  name := name
  description := description
  compatible := ["*"]
  check := some (Brain.standardChecks name description ["*"])
  plan := fun _ task => some (plan task)
  assemble := fun _ round => some (assemble round.generated)

end PageProbe.Combinations
