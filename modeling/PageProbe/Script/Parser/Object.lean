import PageProbe.Script.Parser.Function

namespace PageProbe.Script.Grammar

/-- An object member that `get`, `set` or `async` introduces. Of an accessor only the first parameter
    of a setter is kept. -/
def introducedMember (g : Grammar) (c : Context) (word : String) (start : Nat) :
    Parser Node := do
  if word == "async" then
    let isGenerator ← Parser.eatMark "*"
    let k ← g.key c
    let f ← g.methodTail c start true isGenerator
    return .method (← Parser.spanFrom start) k.start k.name k.parts f
  else
    let k ← g.key c
    match ← g.methodTail c start false false with
    | .function _ _ params body =>
      let kept := if word == "set" then params.take 1 else []
      return .plain .accessor (← Parser.spanFrom start) (k.parts ++ kept ++ body)
    | _ => Parser.fail

def objectMember (g : Grammar) (c : Context) : Parser Node := do
  let start ← Parser.position
  if ← Parser.eatMark "..." then
    let inner ← g .assignment c
    return .spread (← Parser.spanFrom start) inner
  if ← Parser.eatMark "*" then
    let k ← g.key c
    let f ← g.methodTail c start false true
    return .method (← Parser.spanFrom start) k.start k.name k.parts f
  let k ← g.key c
  if ← Parser.eatMark ":" then
    let value ← g .assignment c
    return .property (← Parser.spanFrom start) k.name k.parts value
  if ← Parser.atMark "(" then
    let f ← g.methodTail c start false false
    return .method (← Parser.spanFrom start) start k.name k.parts f
  match k.name, k.isWord with
  | some word, true =>
    let name : Node := .name (← Parser.spanFrom start) word
    let _ ← Parser.eatMark "?"
    if ← Parser.eatMark "=" then
      let value ← g .assignment c
      return .plain .shorthand (← Parser.spanFrom start) [name, value]
    if (← Parser.atMark ",") || (← Parser.atMark "\x7d") then
      return .plain .shorthand name.span [name]
    if word == "get" || word == "set" || word == "async" then introducedMember g c word start
    else Parser.fail
  | _, _ => Parser.fail

def object (g : Grammar) (c : Context) : Parser Node := do
  let start ← Parser.position
  let c := { c with withIn := true }
  Parser.expectMark "\x7b"
  let members ← Parser.many do
    if ← Parser.eatMark "\x7d" then return none
    let m ← objectMember g c
    if !(← Parser.atMark "\x7d") then Parser.expectMark ","
    return some m
  return .object (← Parser.spanFrom start) members

/-- The name of a class member: a key, or a private name, which has no parts. -/
def classKey (g : Grammar) (c : Context) : Parser Key := do
  let s ← Parser.get
  match s.token with
  | .privateName _ =>
    Parser.advance
    return ⟨s.start, none, [], false⟩
  | _ => g.key c

def isConstructor (k : Key) : Bool := k.name == some "constructor" && k.parts.isEmpty

/-- Whether a field ends at the current token, at a line end too if `loose`. -/
def atFieldEnd (loose : Bool) : Parser Bool := do
  if (← Parser.atMark "=") || (← Parser.atMark "\x7d") then return true
  if loose then Parser.atSemicolon else Parser.atMark ";"

def classMethod (g : Grammar) (c : Context) (start : Nat) (k : Key)
    (isAsync isGenerator : Bool) : Parser Node := do
  let f ← g.methodTail c start isAsync isGenerator
  return .plain .classMember (← Parser.spanFrom start) (k.parts ++ [f])

/-- A field behind its key. No field may be named `constructor`. -/
def classField (g : Grammar) (c : Context) (start : Nat) (k : Key) : Parser Node := do
  if isConstructor k then Parser.fail
  let value ←
    if ← Parser.eatMark "=" then
      let v ← g .assignment (inside { c with withSuper := true } false false)
      pure [v]
    else pure []
  Parser.expectSemicolon
  return .plain .classMember (← Parser.spanFrom start) (k.parts ++ value)

def constructorTail (g : Grammar) (c : Context) (start : Nat) : Parser Node := do
  let c := inside { c with withSuper := true } false false
  let params ← g.parameters c
  let body ← g.functionBody c
  return .plain .classMember (← Parser.spanFrom start) (params ++ body)

/-- A class member behind `static`, if it has that word. -/
def classMemberTail (g : Grammar) (c : Context) (start : Nat) (isStatic : Bool) :
    Parser Node := do
  if isStatic && (← Parser.atMark "\x7b") then
    let inner := { inside { c with withSuper := true } false false with inStaticBlock := true }
    let body ← g.block inner
    return .plain .classMember (← Parser.spanFrom start) [body]
  if ← Parser.eatMark "*" then
    let k ← classKey g c
    return ← classMethod g c start k false true
  let k ← classKey g c
  if ← Parser.atMark "(" then
    if isConstructor k && !isStatic then return ← constructorTail g c start
    return ← classMethod g c start k false false
  let generatorNext := (← Parser.newlineBefore) && (← Parser.atMark "*")
  let accessor := k.isWord && (k.name == some "get" || k.name == some "set") &&
    !(← atFieldEnd false) && !generatorNext
  if !accessor && (← atFieldEnd true) then return ← classField g c start k
  if k.isWord && k.name == some "async" && !(← Parser.newlineBefore) then
    let isGenerator ← Parser.eatMark "*"
    let k ← classKey g c
    return ← classMethod g c start k true isGenerator
  if accessor then
    let k ← classKey g c
    return ← classMethod g c start k false false
  Parser.fail

def classMember (g : Grammar) (c : Context) : Parser Node := do
  let s ← Parser.get
  if ← Parser.eatWord "static" then
    let k : Key := ⟨s.start, some "static", [], true⟩
    if ← Parser.atMark "(" then return ← classMethod g c s.start k false false
    if ← atFieldEnd false then return ← classField g c s.start k
    classMemberTail g c s.start true
  else classMemberTail g c s.start false

/-- A class behind its name. The members come before the superclass, and a text that ends before the
    closing brace ends the class. -/
def classTail (g : Grammar) (c : Context) (start : Nat) : Parser Node := do
  let super ← if ← Parser.eatWord "extends" then pure [← g .leftHand c] else pure []
  if ← Parser.eatWord "extends" then
    let _ ← g .leftHand c
  Parser.expectMark "\x7b"
  let members ← Parser.many do
    if (← Parser.atMark "\x7d") || (← Parser.atFinish) then return none
    if ← Parser.eatMark ";" then return some []
    return some [← classMember g c]
  let _ ← Parser.eatMark "\x7d"
  return .plain .classBody (← Parser.spanFrom start) (members.flatten ++ super)

/-- A class, from `class` on. A declaration needs a name. -/
def classNode (g : Grammar) (c : Context) (start : Nat) (declared : Bool) : Parser Node := do
  Parser.expectWord "class"
  let c := { c with strict := true }
  if declared || (← Parser.atReference c) then
    let _ ← Parser.bindingName c
  classTail g c start

end PageProbe.Script.Grammar
