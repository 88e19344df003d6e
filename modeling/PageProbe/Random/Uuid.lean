import PageProbe.Random.ChaCha

namespace PageProbe.Random.Uuid

private def hexDigits : List Char := "0123456789abcdef".toList

/-- The digits of a word, the highest first. -/
private def digitsOf (w : UInt32) : List Nat :=
  (List.range 8).map fun i => w.toNat / Nat.pow 16 (7 - i) % 16

/-- Marks digits as those of a random id. -/
private def mark (ds : List Nat) : List Nat := (ds.set 12 4).modify 16 fun d => 8 + d % 4

/-- The text of an id: groups of digits with dashes between them. -/
def text (words : List UInt32) : String :=
  let ds := (mark (words.flatMap digitsOf)).map fun d => (hexDigits[d]?).getD '0'
  String.intercalate "-" <|
    [(0, 8), (8, 4), (12, 4), (16, 4), (20, 12)].map fun (start, count) =>
      String.ofList ((ds.drop start).take count)

/-- The ids of a seed, by their numbers. -/
def ofSeed (seed : UInt64) (n : Nat) : String :=
  let draw : StateM Stream (List UInt32) := times 4 word
  text (draw (Stream.ofSeed (seed + UInt64.ofNat n))).1

end PageProbe.Random.Uuid
