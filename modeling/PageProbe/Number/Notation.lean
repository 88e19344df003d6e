import PageProbe.Number.Shortest

namespace PageProbe.Number

def natural (n : Nat) : String := String.ofList (Nat.toDigits 10 n)

def integer : Int → String
  | .ofNat n => natural n
  | .negSucc n => "-" ++ natural (n + 1)

private def zeros (n : Nat) : List Char := List.replicate n '0'

/-- All places of a decimal: no exponent, and a point only before a digit that is not zero. -/
def places (d : Decimal) : String :=
  let ds := Nat.toDigits 10 d.digits
  match d.exponent with
  | .ofNat k => String.ofList (if d.digits = 0 then ds else ds ++ zeros k)
  | .negSucc k =>
    let cut := k + 1
    if ds.length > cut then
      String.ofList (ds.take (ds.length - cut) ++ '.' :: ds.drop (ds.length - cut))
    else String.ofList ('0' :: '.' :: zeros (cut - ds.length) ++ ds)

/-- The first digit, a point, the other digits, and the exponent with its sign. -/
def scientific (d : Decimal) : String :=
  let ds := Nat.toDigits 10 d.digits
  let e : Int := d.exponent + (ds.length : Int) - 1
  let tail := if ds.length > 1 then '.' :: ds.drop 1 else []
  String.ofList (ds.take 1 ++ tail) ++ "e" ++ (if e < 0 then "" else "+") ++ integer e

/-- A double without an exponent; the sign of a zero is kept. -/
def positional (x : Double) : String :=
  (if x.isNegative then "-" else "") ++
    if x.isInfinite then "Infinity" else places x.shortest

/-- Which doubles JSON writes without an exponent: those whose first digit has an exponent from
    `least` up to, and without, `limit`. -/
structure PositionalRange where
  least : Int
  limit : Int

/-- Doubles from `0.00001` up to `1e+16` are written with all their places. -/
def jsonRange : PositionalRange := ⟨-5, 16⟩

/-- A finite double as JSON: a whole number keeps `.0`, so that it does not read back as an
    integer. -/
def json (x : Double) : String :=
  let d := x.shortest
  let e : Int := d.exponent + ((Nat.toDigits 10 d.digits).length : Int) - 1
  let text :=
    if x.isZero then "0.0"
    else if jsonRange.least ≤ e ∧ e < jsonRange.limit then
      places d ++ (if d.exponent ≥ 0 then ".0" else "")
    else scientific d
  (if x.isNegative then "-" else "") ++ text

end PageProbe.Number
