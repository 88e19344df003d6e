import PageProbe.Injection.Harness
import PageProbe.Session.Request
import PageProbe.Text.Columns

namespace PageProbe

namespace FuzzRecord

private def row (flagged args value info : String) : String :=
  Text.padRight 8 flagged ++ " " ++ Text.fit 40 args ++ " " ++ Text.fit 30 value ++ " " ++ info ++ "\n"

private def flagText (r : FuzzRecord) : String :=
  match r.detection with
  | some v => if v.result then "yes" else "no"
  | none => "-"

private def argsText (r : FuzzRecord) : String :=
  match r.args with
  | some args => renderArguments args
  | none => "<baseline>"

private def valueText (r : FuzzRecord) : String :=
  match r.response.error with
  | some error => "error: " ++ error
  | none => r.response.value.compact

/-- A record as a line of a table. -/
def text (r : FuzzRecord) : String :=
  row r.flagText r.argsText r.valueText ((r.detection.map (·.info)).getD "")

/-- The head of a table of records. -/
def header : String := row "FLAGGED" "ARGS" "VALUE" "INFO"

end FuzzRecord

/-- A table of the records of an outcome. -/
def FuzzOutcome.text (o : FuzzOutcome) : String :=
  "target: " ++ o.target ++ "\n" ++ FuzzRecord.header ++
    String.join (o.records.map FuzzRecord.text) ++
    Number.natural o.flagged.length ++ " of " ++ Number.natural o.records.length ++
    " executions flagged\n"

end PageProbe
