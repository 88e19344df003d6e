/-!
A double is kept as its 64 bits, and every operation is exact arithmetic on natural numbers followed
by one rounding (`ofRatio`), so that nothing here rests on a machine's floating point.
-/

namespace PageProbe

/-- A binary number of 64 bits: a sign, 11 bits of exponent and 52 bits of fraction. -/
structure Double where
  bits : UInt64
deriving DecidableEq, Inhabited, Repr

namespace Double

def isNegative (x : Double) : Bool := x.bits ≥ 0x8000000000000000

/-- The bits without the sign. -/
def magnitude (x : Double) : Nat := x.bits.toNat % Nat.pow 2 63

private def infinite : Nat := 2047 * Nat.pow 2 52

def isInfinite (x : Double) : Bool := x.magnitude == infinite

def isZero (x : Double) : Bool := x.magnitude == 0

/-- Of two zeros the sign makes no difference. -/
def same (x y : Double) : Bool := x == y || (x.isZero && y.isZero)

/-- The whole number `m` and the exponent `e` of a finite double: its size is `m · 2^(e - 1074)`. -/
def parts (x : Double) : Nat × Nat :=
  let e := x.magnitude / Nat.pow 2 52
  let f := x.magnitude % Nat.pow 2 52
  if e = 0 then (f, 0) else (f + Nat.pow 2 52, e - 1)

/-- The size of a finite double as a fraction. -/
def ratio (x : Double) : Nat × Nat :=
  let (m, e) := x.parts
  if e ≥ 1074 then (m * Nat.pow 2 (e - 1074), 1) else (m, Nat.pow 2 (1074 - e))

def ofMagnitude (negative : Bool) (magnitude : Nat) : Double :=
  ⟨UInt64.ofNat (magnitude + if negative then Nat.pow 2 63 else 0)⟩

def negate (x : Double) : Double := ofMagnitude (!x.isNegative) x.magnitude

/-- The whole number nearest to `num / den`; a half goes to the even neighbour. -/
def roundDiv (num den : Nat) : Nat :=
  let q := num / den
  let r := num % den
  if 2 * r > den || (2 * r == den && q % 2 == 1) then q + 1 else q

/-- `num / den` in units of `2^(e - 1074)`, rounded. -/
private def roundAt (num den e : Nat) : Nat :=
  if e ≥ 1074 then roundDiv num (den * Nat.pow 2 (e - 1074))
  else roundDiv (num * Nat.pow 2 (1074 - e)) den

/-- Whether `num / den` has 53 bits or more in units of `2^(e - 1074)`. -/
private def fills (num den e : Nat) : Bool :=
  if e ≥ 1074 then num ≥ Nat.pow 2 52 * (den * Nat.pow 2 (e - 1074))
  else num * Nat.pow 2 (1074 - e) ≥ Nat.pow 2 52 * den

/-- The double nearest to a fraction; a tie goes to the even neighbour, and what lies beyond the
    largest double becomes infinite. -/
def ofRatio (negative : Bool) (num den : Nat) : Double :=
  if num = 0 then ofMagnitude negative 0
  else
    -- The exponent is known up to one from the lengths of the two numbers.
    let guess := num.log2 + 1074 - 53 - den.log2
    let e := if fills num den (guess + 1) then guess + 1 else guess
    let m := roundAt num den e
    ofMagnitude negative (min infinite (if m < Nat.pow 2 52 then m else m + e * Nat.pow 2 52))

def ofNat (n : Nat) : Double := ofRatio false n 1

def mul (x y : Double) : Double :=
  let (a, b) := x.ratio
  let (c, d) := y.ratio
  ofRatio (x.isNegative != y.isNegative) (a * c) (b * d)

/-- The quotient of two finite doubles, of which the second is not zero. -/
def div (x y : Double) : Double :=
  let (a, b) := x.ratio
  let (c, d) := y.ratio
  ofRatio (x.isNegative != y.isNegative) (a * d) (b * c)

/-- The largest power of ten that is a double has this exponent. -/
def maxTen : Nat := 308

/-- The double nearest to `digits · 10^exponent`. -/
def ofDecimal (digits : Nat) (exponent : Int) : Double :=
  if digits = 0 then ofNat 0
  else
    let top : Int := (digits.log2 : Int) / 3 + exponent
    if top > 400 + (digits.log2 : Int) then ofMagnitude false infinite
    else if top < -400 then ofNat 0
    else match exponent with
      | .ofNat k => ofRatio false (digits * Nat.pow 10 k) 1
      | .negSucc k => ofRatio false digits (Nat.pow 10 (k + 1))

end Double
end PageProbe
