import PageProbe.Script.Parser.State
import PageProbe.Number.Notation

/-!
An expression that turns out to be a pattern is read again as one. What cannot be bound is kept as
an invalid node without parts, except for methods and accessors of an object, which no pattern may
hold.
-/

namespace PageProbe.Script

/-- Where a pattern stands: it is assigned to or it binds names, as a whole or as an element of
    another pattern. -/
inductive Place where
  | assigned
  | assignedElement
  | bound
  | boundElement
deriving DecidableEq

def Place.element : Place → Place
  | .assigned => .assignedElement
  | .assignedElement => .assignedElement
  | .bound => .boundElement
  | .boundElement => .boundElement

namespace Node

/-- Whether an expression may be assigned to as an element of a pattern. Whether the assignment makes
    sense is not asked. -/
def isElementTarget : Node → Bool
  | .name .. | .member .. | .call .. | .string .. | .function .. | .paren .. => true
  | .plain form _ _ =>
    form == .literal || form == .superMember || form == .construction || form == .classBody ||
      form == .template
  | _ => false

mutual
/-- An expression read as a pattern. -/
def toPattern? (place : Place) : Node → Option Node
  | .object s members => (toMembers? place.element members).map (.plain .pattern s ·)
  | .plain .array s items => (toElements? place.element items).map (.plain .pattern s ·)
  | .assign s isPlain target value =>
    if place = .assigned then some (.assign s isPlain target value)
    else if isPlain then some (.plain .pattern s [target, value])
    else some (.plain .invalid s [])
  | .name s text => some (.name s text)
  | n =>
    if place = .assigned ∨ (place = .assignedElement ∧ n.isElementTarget) then some n
    else some (.plain .invalid n.span [])

def toMembers? (place : Place) : List Node → Option (List Node)
  | [] => some []
  | .property s _ keyParts value :: rest => do
    let value ← toPattern? place value
    let rest ← toMembers? place rest
    return .plain .pattern s (keyParts ++ [value]) :: rest
  | .spread s inner :: rest => do
    let bound ← toPattern? place inner
    let rest ← toMembers? place rest
    let bound := match place, inner with
      | .boundElement, .name .. => bound
      | .boundElement, _ => .plain .invalid s []
      | _, _ => bound
    return .plain .pattern s [bound] :: rest
  | .plain .shorthand s parts :: rest => do
    let rest ← toMembers? place rest
    return .plain .shorthand s parts :: rest
  | _ => none

/-- Elements of an array. Only the last may take all that is left; any other that tries to is left
    out. -/
def toElements? (place : Place) : List Node → Option (List Node)
  | [] => some []
  | [.spread s inner] => (toPattern? place inner).map fun bound => [.plain .pattern s [bound]]
  | .spread _ _ :: rest => toElements? place rest
  | n :: rest => do
    let bound ← toPattern? place n
    let rest ← toElements? place rest
    return bound :: rest
end

/-- Whether a node may stand on the left of an assignment operator. -/
def isTarget : Node → Bool
  | .name .. | .member .. | .paren .. => true
  | .plain form _ _ => form == .superMember || form == .optionalChain || form == .pattern
  | _ => false

end Node

namespace Grammar

/-- The name of a member of an object or a class. -/
structure Key where
  start : Nat
  name : Option String
  parts : List Node
  /-- Whether the name is written as a bare word. -/
  isWord : Bool

/-- A key: a word, a quoted text, a number, a big integer or an expression in brackets. -/
def key (g : Grammar) (c : Context) : Parser Key := do
  let s ← Parser.get
  match s.token with
  | .word w _ =>
    Parser.advance
    return ⟨s.start, some w, [], true⟩
  | .string v =>
    Parser.advance
    return ⟨s.start, some v, [], false⟩
  | .number x =>
    Parser.advance
    return ⟨s.start, some (Number.positional x), [], false⟩
  | .bigint =>
    Parser.advance
    return ⟨s.start, none, [], false⟩
  | .punct "[" =>
    Parser.advance
    let inner ← g .assignment { c with withIn := true }
    Parser.expectMark "]"
    return ⟨s.start, none, [inner], false⟩
  | _ => Parser.fail

def arrayPattern (g : Grammar) (c : Context) : Parser Node := do
  let start ← Parser.position
  Parser.expectMark "["
  let items ← Parser.many do
    if (← Parser.atMark "]") || (← Parser.atFinish) then return none
    if ← Parser.eatMark "," then return some []
    let at_ ← Parser.position
    let item ←
      if ← Parser.eatMark "..." then
        let inner ← g .binding c
        pure (Node.plain .pattern (← Parser.spanFrom at_) [inner])
      else g .element c
    if !(← Parser.atMark "]") then Parser.expectMark ","
    return some [item]
  Parser.expectMark "]"
  return .plain .pattern (← Parser.spanFrom start) items.flatten

def memberPattern (g : Grammar) (c : Context) : Parser Node := do
  let start ← Parser.position
  if ← Parser.eatMark "..." then
    let inner ← g .binding c
    return .plain .pattern (← Parser.spanFrom start) [inner]
  let k ← g.key c
  if ← Parser.eatMark ":" then
    let value ← g .element c
    return .plain .pattern (← Parser.spanFrom start) (k.parts ++ [value])
  if !k.isWord then Parser.fail
  if ← Parser.eatMark "=" then
    let value ← g .assignment { c with withIn := true }
    return .plain .pattern (← Parser.spanFrom start) [value]
  return .plain .pattern (← Parser.spanFrom start) []

def objectPattern (g : Grammar) (c : Context) : Parser Node := do
  let start ← Parser.position
  Parser.expectMark "\x7b"
  let members ← Parser.many do
    if ← Parser.eatMark "\x7d" then return none
    let m ← memberPattern g c
    if !(← Parser.atMark "\x7d") then Parser.expectMark ","
    return some m
  return .plain .pattern (← Parser.spanFrom start) members

/-- A name or a pattern that is bound. -/
def binding (g : Grammar) (c : Context) : Parser Node := do
  match ← Parser.token with
  | .punct "[" => arrayPattern g c
  | .punct "\x7b" => objectPattern g c
  | .word .. => Parser.bindingName c
  | _ => Parser.fail

/-- A binding and the value that stands in for what is missing. -/
def element (g : Grammar) (c : Context) : Parser Node := do
  let start ← Parser.position
  let bound ← g .binding c
  if ← Parser.eatMark "=" then
    let value ← g .assignment { c with withIn := true }
    return .plain .pattern (← Parser.spanFrom start) [bound, value]
  return bound

end Grammar
end PageProbe.Script
