import PageProbe.Plugin.Kinds

namespace PageProbe.Difference

open Json (Value)

def moduleId : String := "specialCharDetecModule"

/-- Whether an execution returned its first argument as it was. The baseline has no arguments. -/
def givesBack (r : FuzzRecord) : Bool :=
  match r.args with
  | some (first :: _) => first.same r.response.value
  | _ => false

def info (flag : Bool) : String :=
  if flag then "The filter didn't filter the entry" else "The filter performed ok"

def detector : Detector :=
  Detector.ofFlags "Difference analyser"
    ("Analyses replies from a function by checking the difference between the input and the output " ++
      "for a one argument filter.")
    (fun records => some (records.map givesBack)) (fun _ flag => some (info flag))

end PageProbe.Difference
