import PageProbe.Page.Analysis
import PageProbe.Text.Columns

namespace PageProbe

namespace Leaf

private def usedText (indent : String) (u : UsedFunction) : String :=
  indent ++ "  -> " ++ u.name ++ " (line " ++ Number.natural u.line ++ ") " ++ u.path.getD "?" ++
    "\n"

private def headText (indent : String) (leaf : Leaf) : String :=
  let aliases :=
    if leaf.paths.length > 1 then " aka " ++ String.intercalate ", " (leaf.names.drop 1) else ""
  indent ++ leaf.name ++ "(" ++ String.intercalate ", " leaf.args ++ ")" ++ aliases ++ " [" ++
    Number.natural leaf.range.start ++ ".." ++ Number.natural leaf.range.stop ++ "]\n"

mutual
/-- A leaf with its calls, and the leaves below it one step further to the right. The root of a
    script shows only its name. -/
def textAt (depth : Nat) : Leaf → String
  | leaf@{ children := children, .. } =>
    let indent := Text.copies depth "  "
    let own :=
      if depth = 1 then indent ++ leaf.name ++ "\n"
      else headText indent leaf ++ String.join (leaf.usedFunctions.map (usedText indent))
    own ++ textOf (depth + 1) children

def textOf (depth : Nat) : List Leaf → String
  | [] => ""
  | c :: cs => textAt depth c ++ textOf depth cs
end

end Leaf

/-- The listing of a tree. -/
def FunctionTree.text (tree : FunctionTree) : String :=
  tree.page ++ "\n" ++ Leaf.textOf 1 tree.children

def Severity.title : Severity → String
  | warning => "Warning"
  | error => "Error"

namespace AnalysisReport

private def row (file functions calls resolved : String) : String :=
  Text.padRight 24 file ++ " " ++ Text.padRight 10 functions ++ " " ++ Text.padRight 6 calls ++ " " ++
    resolved ++ "\n"

private def diagnosticText (d : Diagnostic) : String :=
  "  " ++ d.file ++ ":" ++ Number.natural d.line ++ " " ++ d.severity.title ++ ": " ++ d.message ++
    "\n"

private def text (r : AnalysisReport) : String :=
  row (Text.fit 24 r.file) (Number.natural r.functions) (Number.natural r.calls)
      (Number.natural r.resolution.resolved) ++
    String.join (r.diagnostics.map diagnosticText)

/-- A table of analyses, one script a line, with what was reported below it. -/
def table (reports : List AnalysisReport) : String :=
  row "FILE" "FUNCTIONS" "CALLS" "RESOLVED" ++ String.join (reports.map text)

end AnalysisReport
end PageProbe
