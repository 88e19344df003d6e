import PageProbe.Files.Access
import PageProbe.Glob.Pattern
import PageProbe.Json.Mismatch

namespace PageProbe

inductive Cause where
  | words (text : String)
  | system (error : FileError)
  | pattern (text : String) (fault : Glob.PatternFault)
  /-- A script that cannot be parsed. -/
  | script
  /-- A JSON text that cannot be read, or a value in it that is not what it should be. -/
  | json (mismatch : Option Json.Mismatch)
deriving DecidableEq, Repr, Inhabited

namespace Cause

def message : Cause → String
  | words text => text
  | system error => error.message
  | pattern text fault => "error parsing glob '" ++ text ++ "': " ++ fault.message
  | script => "Parse error"
  | json mismatch => (mismatch.map (·.message)).getD "<json>"

/-- All causes on one line. -/
def story (causes : List Cause) : String :=
  String.intercalate ": " (causes.map message)

/-- A text with blanks in front of all lines but the first, so that they stand below it. -/
private def hanging (blanks : Nat) (text : String) : String :=
  String.ofList (text.toList.flatMap fun c =>
    if c = '\n' then '\n' :: List.replicate blanks ' ' else [c])

/-- An inner cause behind its number, which stands in a column of its own. -/
private def numbered (i : Nat) (text : String) : String :=
  let number := toString i
  String.ofList (List.replicate (5 - number.length) ' ') ++ number ++ ": " ++ hanging 7 text

/-- The lines of an error message: the outermost cause, and below it what brought it about. -/
def report : List Cause → List String
  | [] => []
  | [c] => ["Error: " ++ c.message]
  | [c, d] => ["Error: " ++ c.message, "", "Caused by:", "    " ++ hanging 4 d.message]
  | c :: rest =>
    ["Error: " ++ c.message, "", "Caused by:"] ++
      rest.zipIdx.map fun (d, i) => numbered i d.message

end Cause
end PageProbe
