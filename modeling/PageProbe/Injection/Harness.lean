import PageProbe.Json.Printer
import PageProbe.Plugin.Message
import PageProbe.Text.Word
import PageProbe.Tree.Leaf

namespace PageProbe

open Json (Value)

/-- Why a function cannot be called from the outside. -/
inductive TargetError where
  | unknown (path : String)
  | notCallable (path : String)
deriving DecidableEq, Repr, Inhabited

def TargetError.message : TargetError → String
  | unknown path => "unknown function: " ++ path
  | notCallable path => "cannot build a harness for " ++ path ++ ": not a callable name"

/-- Whether a text is one name: an ASCII letter, `_` or `$`, and then word characters and `$`. -/
def isCallableName : List Char → Bool
  | [] => false
  | c :: cs =>
    (c.isAlpha || c == '_' || c == '$') && cs.all fun d => Text.isWord d || d == '$'

/-- Whether a text can be called as it is: names with points between them. -/
def isCallable (callee : String) : Bool :=
  (Text.split (· == '.') callee.toList).all isCallableName

/-- Arguments as script text. JSON is a part of the script language, so values are written as JSON. -/
def renderArguments (args : List Value) : String :=
  String.intercalate "," (args.map Value.compact)

/-- A statement that calls a function with arguments that are script text. -/
def callStatement (name : String) (args : List String) : String :=
  "\n" ++ name ++ "(" ++ String.intercalate "," args ++ ");\n"

/-- The script text that is spliced for a function under test. It calls the function with the arguments
    of one tuple inside a `try` block and posts what came of it. -/
structure Harness where
  callee : String
  /-- The depth below the root of the script: one for a function of the script itself. -/
  level : Nat
  /-- The text of a function without a name, which is bound to `callee` before the call. -/
  anonymousSource : Option String
deriving DecidableEq, Repr, Inhabited

namespace Harness

/-- The class of the report about a call. -/
def callClass : String := "fuzzingResponse"

/-- The class of the report about the page as it is. -/
def baselineClass : String := "fuzzingInitResponse"

def ofLeaf (leaf : Leaf) : Except TargetError Harness :=
  if isCallable leaf.name then
    .ok {
      callee := leaf.name, level := leaf.nestedDegree - 1,
      anonymousSource := if leaf.isAnonymous then leaf.functionSource.head? else none }
  else .error (.notCallable leaf.path)

/-- A function that nothing has to be called for first. -/
def isTopLevel (h : Harness) : Bool := decide (h.level ≤ 1)

/-- Posts a report about a call, or about the page as it is when nothing is called. -/
private def postLines (className uuid : String) (call : Option String) : List String :=
  [ "try\x7b",
    "   postMessage(\x7b",
    "       debug: false,",
    "       class: '" ++ className ++ "',",
    "       payload: \x7b",
    "           uniqueId: '" ++ uuid ++ "'," ] ++
  (call.map fun text => "           returnedValue: " ++ text ++ ",").toList ++
  [ "           serializedDOM: document.documentElement.outerHTML,",
    "           callStack: [],",
    "           error: false",
    "       \x7d,",
    "   \x7d, '*');",
    "\x7d catch (e) \x7b",
    "   postMessage(\x7b",
    "       debug: false,",
    "       class: '" ++ className ++ "',",
    "       payload: \x7b",
    "           uniqueId: '" ++ uuid ++ "',",
    "           returnedValue: undefined,",
    "           serializedDOM: undefined,",
    "           callStack: undefined,",
    "           error: e.toString()",
    "       \x7d,",
    "   \x7d, '*');",
    "\x7d;" ]

/-- What comes before the report: the binding of a function without a name, if it is called. -/
private def bindingLines (h : Harness) (tuple : Tuple) : List String :=
  match h.anonymousSource, tuple.args with
  | some source, some _ => ["var " ++ h.callee ++ " = " ++ source ++ ";"]
  | _, _ => []

private def reportLines (h : Harness) (tuple : Tuple) : List String :=
  match tuple.args with
  | some args =>
    postLines callClass tuple.uuid (some (h.callee ++ "(" ++ renderArguments args ++ ")"))
  | none => postLines baselineClass tuple.uuid none

/-- The lines of the harness for a tuple. At top level they wait until the page has loaded. -/
def lines (h : Harness) (tuple : Tuple) : List String :=
  let body := h.bindingLines tuple ++ h.reportLines tuple
  if h.isTopLevel then " window.onload = function()\x7b" :: body ++ ["\x7d;"] else body

/-- The text of the harness for a tuple. -/
def render (h : Harness) (tuple : Tuple) : String :=
  "\n" ++ String.intercalate " \n " (h.lines tuple) ++ "\n"

end Harness
end PageProbe
