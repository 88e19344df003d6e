import PageProbe.Number.Double

namespace PageProbe

/-- A number of percent, as a fraction with a sign. It is rounded only where it is written. -/
structure Progress where
  isNegative : Bool
  num : Nat
  den : Nat
deriving DecidableEq, Repr, Inhabited

namespace Progress

/-- Nothing is done yet. -/
def start : Progress := ⟨false, 0, 1⟩

/-- All is done. -/
def whole : Progress := ⟨false, 100, 1⟩

/-- Some steps of a number of steps are done. -/
def ofSteps (done steps : Nat) : Progress := ⟨false, done * 100, steps⟩

def ofDouble (x : Double) : Progress :=
  let (num, den) := x.ratio
  ⟨x.isNegative, num, den⟩

def toDouble (p : Progress) : Double := Double.ofRatio p.isNegative p.num p.den

/-- Hundred percent or more. -/
def isWhole (p : Progress) : Bool := !p.isNegative && decide (100 * p.den ≤ p.num)

end Progress
end PageProbe
