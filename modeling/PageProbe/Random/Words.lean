namespace PageProbe.Random

/-- Something that hands out words of 32 bits without end. -/
class WordSource (σ : Type) where
  next : σ → UInt32 × σ

variable {σ : Type} [WordSource σ]

def word : StateM σ UInt32 := WordSource.next

/-- The number below `n` that a word stands for, and the rest of it, in parts of `2^32`. -/
def scale (n : Nat) (w : UInt32) : Nat × Nat :=
  (w.toNat * n / Nat.pow 2 32, w.toNat * n % Nat.pow 2 32)

/-- A number below `n`, for a bound `n` of at most 32 bits: what a word times the bound has above 32
    bits. A second word settles the rare cases in which the first one falls short. -/
def below (n : Nat) : StateM σ Nat := do
  let (high, low) := scale n (← word)
  if low > Nat.pow 2 32 - n then
    let (more, _) := scale n (← word)
    return if low + more ≥ Nat.pow 2 32 then high + 1 else high
  else return high

/-- True for one of two: two words make a number of 64 bits, the first word below the second, and the
    smaller half of these numbers is true. -/
def coin : StateM σ Bool := do
  let _ ← word (σ := σ)
  return decide ((← word).toNat < Nat.pow 2 31)

/-- `n` draws one after another. -/
def times (n : Nat) (draw : StateM σ α) : StateM σ (List α) :=
  match n with
  | 0 => return []
  | n + 1 => do
    let a ← draw
    return a :: (← times n draw)

/-- The element that an index drawn below the length names. -/
def pick (items : List α) (default : α) : StateM σ α := do
  return (items[← below items.length]?).getD default

end PageProbe.Random
