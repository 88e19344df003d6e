import PageProbe.Number.Double

/-!
Of all decimals that lie nearer to a double than to any other double, `shortest` takes one with the
fewest digits, and among these the nearest. It tries one digit, two digits, and so on: for each
count of digits only the two neighbours of the double on that decimal grid have to be tested.
-/

namespace PageProbe

/-- The number `digits · 10^exponent`. -/
structure Decimal where
  digits : Nat
  exponent : Int
deriving DecidableEq, Repr, Inhabited

namespace Decimal

/-- The fraction that a power of ten is. -/
def tenPower : Int → Nat × Nat
  | .ofNat k => (Nat.pow 10 k, 1)
  | .negSucc k => (1, Nat.pow 10 (k + 1))

/-- Takes up to `fuel` zeros off the end of the digits. -/
def trim : Nat → Decimal → Decimal
  | 0, d => d
  | n + 1, d =>
    if d.digits % 10 == 0 && d.digits != 0 then trim n ⟨d.digits / 10, d.exponent + 1⟩ else d

end Decimal

namespace Double

/-- The reals that round to a double, in quarters of its unit in the last place: the two ends, and
    whether the ends themselves belong to them. -/
structure Neighbourhood where
  low : Nat
  high : Nat
  closed : Bool

def neighbourhood (x : Double) : Neighbourhood :=
  let (m, e) := x.parts
  -- Below a power of two the doubles lie twice as close.
  ⟨if m = Nat.pow 2 52 ∧ e > 0 then 4 * m - 1 else 4 * m - 2, 4 * m + 2, m % 2 == 0⟩

/-- Whether `c · 10^j` rounds to the double. -/
def roundsTo (x : Double) (c : Nat) (j : Int) : Bool :=
  let (m, _) := x.parts
  let (num, den) := x.ratio
  let (p, q) := Decimal.tenPower j
  let n := x.neighbourhood
  -- `num / den` is `m` units, so a quarter of a unit is `num / (4 · m · den)`.
  let here := c * p * (4 * m * den)
  let low := n.low * num * q
  let high := n.high * num * q
  if n.closed then decide (low ≤ here) && decide (here ≤ high)
  else decide (low < here) && decide (here < high)

/-- The exponent of the first digit: `10^k` is at most the double, and `10^(k+1)` is above it. The
    guess may be off by a little, and `fuel` bounds the steps that mend it. -/
def leadingExponent (x : Double) (fuel : Nat) (guess : Int) : Int :=
  let (num, den) := x.ratio
  match fuel with
  | 0 => guess
  | n + 1 =>
    let (p, q) := Decimal.tenPower guess
    let (p', q') := Decimal.tenPower (guess + 1)
    if num * q < p * den then leadingExponent x n (guess - 1)
    else if num * q' ≥ p' * den then leadingExponent x n (guess + 1)
    else guess

/-- The nearest decimal of `n` digits that rounds to the double, if there is one. -/
def decimalOf? (x : Double) (k : Int) (n : Nat) : Option Decimal :=
  let (num, den) := x.ratio
  let j := k - n + 1
  let (p, q) := Decimal.tenPower j
  let c := num * q / (den * p)
  let rest := num * q % (den * p)
  let upFirst := decide (2 * rest > den * p) || (2 * rest == den * p && c % 2 == 1)
  let near := if upFirst then c + 1 else c
  let far := if upFirst then c else c + 1
  if x.roundsTo near j then some ⟨near, j⟩
  else if x.roundsTo far j then some ⟨far, j⟩
  else none

/-- The decimal with the fewest digits that reads back as the double, without its sign. -/
def shortest (x : Double) : Decimal :=
  if x.isZero then ⟨0, 0⟩
  else
    let (num, den) := x.ratio
    let guess : Int := ((num.log2 : Int) - (den.log2 : Int)) * 30103 / 100000
    let k := x.leadingExponent 8 guess
    let found := (List.range 17).findSome? fun i => x.decimalOf? k (i + 1)
    (found.getD ⟨0, 0⟩).trim 400

end Double
end PageProbe
