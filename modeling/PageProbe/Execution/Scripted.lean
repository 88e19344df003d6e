import PageProbe.Execution.Context

namespace PageProbe

open Json (Value)
open Text (Bytes)

structure ScriptedContext where
  /-- Why the context does not start. -/
  failure : Option String
  /-- Whether it asks for the scripts of the page. -/
  fetches : Bool
  reports : List Value
deriving Repr, Inhabited

/-- A call that a context finds in a script. -/
structure InjectedCall where
  uuid : String
  /-- The first argument, or null without arguments. -/
  firstArg : Value
deriving Repr, Inhabited

namespace InjectedCall

/-- What follows the first occurrence of a text. -/
private def behind (text : List Char) : List Char → Option (List Char)
  | [] => none
  | c :: cs => if text.isPrefixOf (c :: cs) then some ((c :: cs).drop text.length) else behind text cs

/-- What stands in front of the last occurrence of a text. -/
private def before (text cs : List Char) : List Char :=
  ((behind text.reverse cs.reverse).map List.reverse).getD cs

/-- What is left of a text where it starts to differ from another one. -/
private def difference : List Char → List Char → List Char
  | a :: as, b :: bs => if a = b then difference as bs else b :: bs
  | _, bs => bs

/-- The first argument of the call of a harness, from the text behind its id. -/
private def readFirstArg (harness : List Char) : Value :=
  let args := do
    let line ← behind "returnedValue: ".toList harness
    let call ← behind ['('] (line.takeWhile (· != '\n'))
    (Json.Decoder.array Json.Decoder.value).ofText
      ("[" ++ String.ofList (before [')', ','] call) ++ "]")
  ((args.getD []).head?).getD .null

/-- The call of the harness in a script that differs from how it was. -/
def find? (plain served : Bytes) : Option InjectedCall := do
  let added := difference (Text.decodeLossy plain).toList (Text.decodeLossy served).toList
  let harness ← behind "uniqueId: '".toList added
  return ⟨String.ofList (harness.takeWhile (· != '\x27')), readFirstArg harness⟩

end InjectedCall

namespace ScriptedContext

/-- The context that asks for the scripts and reports nothing. -/
def blank : ScriptedContext := ⟨none, true, []⟩

/-- The mark for the id of the injected tuple. -/
def idMark : String := "$id"

/-- The mark for the first argument of the injected call. -/
def argMark : String := "$arg"

mutual
/-- A report in which the marks are replaced. -/
def fill (call : Option InjectedCall) : Value → Value
  | .string s =>
    if s = idMark then .string ((call.map (·.uuid)).getD "none")
    else if s = argMark then (call.map (·.firstArg)).getD .null
    else .string s
  | .array items => .array (fillItems call items)
  | .object members => .object (fillMembers call members)
  | v => v

def fillItems (call : Option InjectedCall) : List Value → List Value
  | [] => []
  | v :: vs => fill call v :: fillItems call vs

def fillMembers (call : Option InjectedCall) : List (String × Value) → List (String × Value)
  | [] => []
  | (n, v) :: rest => (n, fill call v) :: fillMembers call rest
end

/-- What the launches of contexts have come to, and the contexts to be launched next. The last of them
    is launched again and again. -/
structure Memory where
  next : List ScriptedContext
  /-- The bodies that every launched context was served, or nothing where it did not start. -/
  served : List (Option (List Bytes))
deriving Repr, Inhabited

def Memory.start (contexts : List ScriptedContext) : Memory := ⟨contexts, []⟩

/-- The context to be launched next, and those after it. -/
private def turn : List ScriptedContext → ScriptedContext × List ScriptedContext
  | [] => (blank, [])
  | [c] => (c, [c])
  | c :: cs => (c, cs)

/-- The reports of a context that was served some bodies. All are there from the start. -/
private def reportsFor (c : ScriptedContext) (resources : List PageResource) (bodies : List Bytes) :
    List TimedReport :=
  let call := (resources.zip bodies).findSome? fun (r, body) =>
    if body = r.body then none else InjectedCall.find? r.body body
  c.reports.filterMap fun report =>
    (ExecutionReport.ofLine? (fill call report).compact).map fun r => ⟨0, r⟩

/-- Launches contexts that ask for resources in pieces of a size. -/
def launch (resources : List PageResource) (size : Nat) : Launcher Memory where
  launch := fun memory =>
    let (c, rest) := turn memory.next
    match c.failure with
    | some reason => .done (⟨rest, memory.served ++ [none]⟩, .failed reason)
    | none =>
      let wanted := if c.fetches then resources else []
      Fetching.fetchBodies size [] wanted fun bodies =>
        .done (⟨rest, memory.served ++ [some bodies]⟩, .reporting (c.reportsFor wanted bodies))
  teardown := .done

end ScriptedContext
end PageProbe
