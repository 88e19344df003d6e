import PageProbe.Script.Parser.Operand

namespace PageProbe.Script.Grammar

def assignMarks : List String := [
  "=", "+=", "-=", "*=", "/=", "%=", "**=", "<<=", ">>=", ">>>=", "&=", "|=", "^=", "&&=", "||=",
  "??="]

def prefixMarks : List String := ["+", "-", "~", "!"]

def prefixWords : List String := ["delete", "void", "typeof"]

def atPrefix : Parser Bool := do
  match ← Parser.token with
  | .punct m => return prefixMarks.contains m
  | .word w false => return prefixWords.contains w
  | _ => return false

def atUpdate : Parser Bool := return (← Parser.atMark "++") || (← Parser.atMark "--")

/-- An operand with the operators before and behind it. What follows a sign or a word such as
    `typeof` may be missing. -/
def unary (g : Grammar) (c : Context) : Parser Node := do
  let s ← Parser.get
  if ← atUpdate then
    Parser.advance
    let inner ← g .unary c
    return .plain .update (← Parser.spanFrom s.start) [inner]
  if ← atPrefix then
    Parser.advance
    let inner ← Parser.recover (g .unary c)
    return .plain .unary (← Parser.spanFrom s.start) inner.toList
  if ← Parser.atWord "await" then
    let (next, newline) ← Parser.ahead
    let alone := newline || next == .punct ")" || next == .punct "]" || next == .punct ";" ||
      next == .punct "\x7d" || next == .punct "," || next == .punct "=" || next == .punct "=>" ||
      next == .finish
    if c.inAsync || !alone then
      Parser.advance
      let inner ← g .unary c
      return .plain .await (← Parser.spanFrom s.start) [inner]
  let n ← g .leftHand c
  if let .arrow .. := n then return n
  if !(← Parser.newlineBefore) && (← atUpdate) then
    Parser.advance
    return .plain .update (← Parser.spanFrom s.start) [n]
  return n

/-- The operator at the current token and how tight it binds. -/
def binaryOperator (c : Context) : Parser (Option (String × Nat)) := do
  match ← Parser.token with
  | .punct m => return (binaryMarks.lookup m).map ((m, ·))
  | .word "instanceof" false => return some ("instanceof", 7)
  | .word "in" false => return if c.withIn then some ("in", 7) else none
  | _ => return none

/-- Whether a node may be the left operand of a power: a sign in front of it needs parentheses. -/
def mayBeRaised : Node → Bool
  | .plain form _ _ => form != .unary && form != .await
  | _ => true

def operationWith (g : Grammar) (c : Context) (least : Nat) : Nat → Node → Parser Node
  | 0, _ => Parser.fail
  | fuel + 1, left => do
    match ← binaryOperator c with
    | none => return left
    | some (op, tight) =>
      if tight ≤ least then return left
      Parser.advance
      if op == "**" && !mayBeRaised left then Parser.fail
      let operand ← g .unary c
      let right ← g (.operation operand (if op == "**" then tight - 1 else tight)) c
      let span ← Parser.spanFrom left.span.start
      operationWith g c least fuel (.plain .operation span [left, right])

/-- A left operand with all operators behind it that bind tighter than `least`. -/
def operation (g : Grammar) (c : Context) (left : Node) (least : Nat) : Parser Node := do
  let s ← Parser.get
  operationWith g c least (s.rest.length + 2) left

/-- Operands with operators between them. A missing first operand is passed over. -/
def operations (g : Grammar) (c : Context) : Parser Node := do
  let start ← Parser.position
  match ← Parser.recover (g .unary c) with
  | some n => if let .arrow .. := n then return n else operation g c n 0
  | none =>
    if (← binaryOperator c).isSome then
      operation g c (.plain .invalid ⟨start, start⟩ []) 0
    else Parser.fail

def conditional (g : Grammar) (c : Context) : Parser Node := do
  let test ← operations g c
  if let .arrow .. := test then return test
  if ← Parser.eatMark "?" then
    let first ← g .assignment { c with withIn := true }
    Parser.expectMark ":"
    let second ← g .assignment c
    return .plain .operation (← Parser.spanFrom test.span.start) [test, first, second]
  return test

def startsExpression : Token → Bool
  | .punct m => ["!", "(", "[", "\x7b", "+", "-", "++", "--", "~", "\x60", "/", "/=", "*"].contains m
  | .word w _ => w != "in" && w != "instanceof"
  | .finish => false
  | _ => true

def yieldTail (g : Grammar) (c : Context) : Parser Node := do
  let start ← Parser.position
  Parser.advance
  if (← Parser.atSemicolon) || !startsExpression (← Parser.token) then
    return .plain .yield (← Parser.spanFrom start) []
  let _ ← Parser.eatMark "*"
  let inner ← g .assignment c
  return .plain .yield (← Parser.spanFrom start) [inner]

/-- An expression without commas outside of brackets. -/
def assignment (g : Grammar) (c : Context) : Parser Node := do
  if c.inGenerator && (← Parser.atWord "yield") then return ← yieldTail g c
  let s ← Parser.get
  let mayBeArrow := match s.token with
    | .word w _ => !reservedWords.contains w
    | .punct "(" => true
    | _ => false
  Parser.set { s with arrowStart := if mayBeArrow then some s.start else none }
  let left ← conditional g c
  match left with
  | .arrow .. => return left
  | .plain .operation _ _ => return left
  | .plain .unary _ _ => return left
  | .plain .update _ _ => return left
  | _ =>
    match ← Parser.token with
    | .punct m =>
      if !assignMarks.contains m then return left
      let target ←
        if m == "=" then
          match left.toPattern? .assigned with
          | some t => pure t
          | none => Parser.fail
        else pure left
      if !target.isTarget then Parser.fail
      Parser.advance
      let value ← g .assignment c
      return .assign (← Parser.spanFrom left.span.start) (m == "=") target value
    | _ => return left

end PageProbe.Script.Grammar
