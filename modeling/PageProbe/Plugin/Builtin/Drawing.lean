import PageProbe.Plugin.Kinds
import PageProbe.Random.ChaCha

namespace PageProbe

open Json (Value)
open PageProbe.Random

namespace GeneratorCall

/-- The number of values that a call draws. A call with arguments draws none. -/
def drawn : GeneratorCall → Nat
  | check => Generator.checkSize
  | generate batchSize [] => batchSize
  | generate _ _ => 0

/-- The number of values that some calls draw together. -/
def drawnByAll : List GeneratorCall → Nat
  | [] => 0
  | c :: cs => c.drawn + drawnByAll cs

end GeneratorCall

/-- The values `start`, …, `start + count - 1` of the texts that are drawn from a source. -/
def drawnValues {σ : Type} [WordSource σ] (draw : StateM σ String) (source : σ)
    (start count : Nat) : List Value :=
  let (_, source) := (times start draw).run source
  ((times count draw).run source).1.map .string

/-- The generator whose values are drawn one after another from the stream of a seed. It cannot be
    steered. -/
def Generator.ofDraw (name description : String) (draw : StateM Stream String) (seed : Nat) :
    Generator :=
  let after (calls : List GeneratorCall) (count : Nat) : List Value :=
    drawnValues draw (Stream.ofSeed (UInt64.ofNat seed)) (GeneratorCall.drawnByAll calls) count
  { name := name
    description := description
    compatibleBrains := []
    check := fun calls => some (standardChecks name description (after calls checkSize))
    generate := fun calls batchSize args =>
      some (if args.isEmpty then after calls batchSize else []) }

end PageProbe
