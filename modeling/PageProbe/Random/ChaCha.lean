import PageProbe.Random.Words

namespace PageProbe.Random

namespace ChaCha

abbrev Block := Vector UInt32 16

def rotateLeft (w : UInt32) (n : UInt32) : UInt32 := (w <<< n) ||| (w >>> (32 - n))

def quarterRound (a b c d : Fin 16) (v : Block) : Block :=
  let v := v.set a (v[a] + v[b])
  let v := v.set d (rotateLeft (v[d] ^^^ v[a]) 16)
  let v := v.set c (v[c] + v[d])
  let v := v.set b (rotateLeft (v[b] ^^^ v[c]) 12)
  let v := v.set a (v[a] + v[b])
  let v := v.set d (rotateLeft (v[d] ^^^ v[a]) 8)
  let v := v.set c (v[c] + v[d])
  v.set b (rotateLeft (v[b] ^^^ v[c]) 7)

/-- A round over the columns and a round over the diagonals. -/
def doubleRound (v : Block) : Block :=
  let v := quarterRound 0 4 8 12 v
  let v := quarterRound 1 5 9 13 v
  let v := quarterRound 2 6 10 14 v
  let v := quarterRound 3 7 11 15 v
  let v := quarterRound 0 5 10 15 v
  let v := quarterRound 1 6 11 12 v
  let v := quarterRound 2 7 8 13 v
  quarterRound 3 4 9 14 v

def rounds : Nat → Block → Block
  | 0, v => v
  | n + 1, v => rounds n (doubleRound v)

abbrev Key := Vector UInt32 8

/-- What the rounds start from: four fixed words, the key, the number of the block in 64 bits, and
    two words of zero. -/
def start (key : Key) (number : UInt64) : Block :=
  #v[0x61707865, 0x3320646e, 0x79622d32, 0x6b206574,
    key[0], key[1], key[2], key[3], key[4], key[5], key[6], key[7],
    number.toUInt32, (number >>> 32).toUInt32, 0, 0]

def block (key : Key) (number : UInt64) : Block :=
  let v := start key number
  v.zipWith (· + ·) (rounds 6 v)

end ChaCha

/-- A place in the words of a key: the words of the current block that are left, and the number of
    the next block. -/
structure Stream where
  key : ChaCha.Key
  rest : List UInt32
  number : UInt64
deriving Repr

namespace Stream

/-- The multiplier and the increment of the generator that spreads a seed over a key. -/
private def multiplier : UInt64 := 6364136223846793005
private def increment : UInt64 := 11634580027462260723

/-- The next state of that generator, and the word that it gives: some bits of the state, rotated by
    the topmost five. -/
private def spread (s : UInt64) : UInt64 × UInt32 :=
  let s := s * multiplier + increment
  let x := (((s >>> 18) ^^^ s) >>> 27).toUInt32
  let n := (s >>> 59).toUInt32
  (s, (x >>> n) ||| (x <<< ((32 - n) % 32)))

/-- The stream of a seed. -/
def ofSeed (seed : UInt64) : Stream :=
  let (s0, k0) := spread seed
  let (s1, k1) := spread s0
  let (s2, k2) := spread s1
  let (s3, k3) := spread s2
  let (s4, k4) := spread s3
  let (s5, k5) := spread s4
  let (s6, k6) := spread s5
  let (_, k7) := spread s6
  ⟨#v[k0, k1, k2, k3, k4, k5, k6, k7], [], 0⟩

def next (s : Stream) : UInt32 × Stream :=
  match s.rest with
  | w :: rest => (w, { s with rest := rest })
  | [] =>
    let block := (ChaCha.block s.key s.number).toList
    (block.headD 0, { s with rest := block.drop 1, number := s.number + 1 })

instance : WordSource Stream := ⟨next⟩

end Stream
end PageProbe.Random
