import PageProbe.Json.Decoder
import PageProbe.Script.Parser
import PageProbe.Text.Lines
import PageProbe.Tree.Wire

namespace PageProbe

open Script

/-- What a call calls. -/
inductive Callee where
  /-- A name such as `a.b.c`. A chain that starts at something else has an empty first name. -/
  | named (name : String)
  /-- A member of `this`: the chain behind it, such as `.render`. -/
  | ofThis (tail : String)
  /-- A function that is called where it is written. -/
  | immediate
  | unnamed
deriving DecidableEq, Repr, Inhabited

structure CallSite where
  callee : Callee
  range : Span
  line : Nat
  /-- The texts of the arguments, spread marks included. -/
  arguments : List String
deriving DecidableEq, Repr, Inhabited

namespace Script.Node

/-- The names of a chain of members, and whether the chain starts at `this`. What starts a chain
    without being a name counts as empty, and so does `this`. -/
def chain : Node → Bool × String
  | .paren _ inner => inner.chain
  | .name _ text => (false, text)
  | .this _ => (true, "")
  | .member _ holder key _ => (holder.chain.1, holder.chain.2 ++ "." ++ key.getD "<computed>")
  | _ => (false, "")

def callee (n : Node) : Callee :=
  match n.unparen with
  | .name _ text => .named text
  | .member s holder key parts =>
    match chain (.member s holder key parts) with
    | (true, tail) => .ofThis tail
    | (false, whole) => .named whole
  | .function .. => .immediate
  | .arrow .. => .immediate
  | _ => .unnamed

end Script.Node

/-- The text of an argument. -/
def argumentText (source : List Char) : Node → String
  | .spread _ inner => "..." ++ String.ofList (Text.slice source inner.span)
  | n => String.ofList (Text.slice source n.span)

/-- What is collected about a call. -/
def siteOf (source : List Char) (span : Span) (callee : Node) (args : List Node) :
    CallSite :=
  ⟨callee.callee, span, Text.lineAt source span.start, args.map (argumentText source)⟩

mutual
/-- All calls of a node, every call before the calls inside it. -/
def callsOf (source : List Char) : Node → List CallSite
  | .call span callee args =>
    siteOf source span callee args :: (callsOf source callee ++ callsOfAll source args)
  | .paren _ inner => callsOf source inner
  | .member _ holder _ parts => callsOf source holder ++ callsOfAll source parts
  | .assign _ _ target value => callsOf source target ++ callsOf source value
  | .object _ members => callsOfAll source members
  | .property _ _ keyParts value => callsOfAll source keyParts ++ callsOf source value
  | .method _ _ _ keyParts f => callsOfAll source keyParts ++ callsOf source f
  | .spread _ inner => callsOf source inner
  | .function _ _ params body => callsOfAll source params ++ callsOfAll source body
  | .arrow _ params body => callsOfAll source params ++ callsOfAll source body
  | .functionDecl _ _ f => callsOf source f
  | .varDecl _ declarators => callsOfAll source declarators
  | .declarator _ bound init => callsOf source bound ++ callsOfOption source init
  | .statement _ parts => callsOfAll source parts
  | .plain _ _ parts => callsOfAll source parts
  | _ => []

def callsOfAll (source : List Char) : List Node → List CallSite
  | [] => []
  | n :: rest => callsOf source n ++ callsOfAll source rest

def callsOfOption (source : List Char) : Option Node → List CallSite
  | none => []
  | some n => callsOf source n
end

/-- All calls of a script. -/
def Script.Program.calls (program : Program) (source : String) : List CallSite :=
  callsOfAll source.toList program.body

namespace Callee

open Json

def write : Callee → Document
  | .named name => .object [("named", .string name)]
  | .ofThis tail => .object [("this", .string tail)]
  | .immediate => .string "iife"
  | .unnamed => .string "unnamed"

def decode : Decoder Callee
  | _, .string "iife" => some .immediate
  | _, .string "unnamed" => some .unnamed
  | _, .object [("named", .string name)] => some (.named name)
  | _, .object [("this", .string tail)] => some (.ofThis tail)
  | _, _ => none

end Callee

namespace CallSite

open Json

def write (c : CallSite) : Document :=
  .object [
    ("callee", c.callee.write), ("range", c.range.write), ("line", .ofNat c.line),
    ("arguments", .strings c.arguments)]

def decode : Decoder CallSite := fun room d => do
  match ← Record.fields ["callee", "range", "line", "arguments"] false room d with
  | [callee, range, line, arguments] =>
    return {
      callee := ← callee.required Callee.decode
      range := ← range.required Span.decode
      line := ← line.required Decoder.nat
      arguments := ← arguments.required (Decoder.array Decoder.string) }
  | _ => none

end CallSite
end PageProbe
