import PageProbe.Plugin.Wire

namespace PageProbe

open Json

/-- What a run needs to know. -/
structure FuzzRequest where
  /-- The path of the function under test. -/
  target : String
  generators : GenerationMap
  detector : String
  brain : String
  batchSize : Nat
  /-- The texts of the arguments of every enclosing function, outermost first. -/
  dependencyArgs : List (List String)
deriving DecidableEq, Repr, Inhabited

/-- The judged records of a run, in the order of their executions. -/
structure FuzzOutcome where
  target : String
  records : List FuzzRecord
deriving Repr, Inhabited

namespace FuzzOutcome

/-- The records that a detector marked as suspicious. -/
def flagged (o : FuzzOutcome) : List FuzzRecord := o.records.filter FuzzRecord.isFlagged

/-- The record of the page as it is when nothing is called. -/
def baseline? (o : FuzzOutcome) : Option FuzzRecord := o.records.find? (·.args.isNone)

def write (o : FuzzOutcome) : Document :=
  .object [("target", .string o.target), ("records", FuzzRecord.writeAll o.records)]

end FuzzOutcome

def FuzzRequest.write (r : FuzzRequest) : Document :=
  .object [
    ("target", .string r.target), ("generators", GenerationMap.write r.generators),
    ("detector", .string r.detector), ("brain", .string r.brain),
    ("batch_size", .ofNat r.batchSize),
    ("dependency_args", .array (r.dependencyArgs.map Document.strings))]

end PageProbe
