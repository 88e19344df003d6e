import PageProbe.Script.Parser.Pattern

namespace PageProbe.Script.Grammar

/-- Statements up to a closing brace. A text that ends before the brace ends the block as well. -/
def blockBody (g : Grammar) (c : Context) : Parser (List Node) := do
  let items ← Parser.many do
    if (← Parser.atMark "\x7d") || (← Parser.atFinish) then return none
    return some (← g (.statement true) c)
  let _ ← Parser.eatMark "\x7d"
  return items

def block (g : Grammar) (c : Context) : Parser Node := do
  let start ← Parser.position
  Parser.expectMark "\x7b"
  let items ← g.blockBody { c with withIn := true, inForHead := false }
  return .plain .block (← Parser.spanFrom start) items

/-- Whether the current token is the directive that makes code strict. -/
def atStrictDirective : Parser Bool := do
  let s ← Parser.get
  return s.token == .string "use strict" && s.stop == s.start + 12

/-- The context inside a function. -/
def inside (c : Context) (isAsync isGenerator : Bool) : Context :=
  { c with
    inAsync := isAsync, inGenerator := isGenerator, withIn := true, inStaticBlock := false,
    inForHead := false }

/-- The statements of a function between braces. -/
def functionBody (g : Grammar) (c : Context) : Parser (List Node) := do
  Parser.expectMark "\x7b"
  let strict ← atStrictDirective
  g.blockBody { c with strict := c.strict || strict }

/-- The parameters of a function in parentheses. -/
def parameters (g : Grammar) (c : Context) : Parser (List Node) := do
  Parser.expectMark "("
  Parser.commaList ")" do
    let start ← Parser.position
    if ← Parser.eatMark "..." then
      let bound ← g .binding c
      if ← Parser.eatMark "=" then
        let value ← g .assignment c
        return .plain .pattern (← Parser.spanFrom start) [bound, value]
      return .plain .pattern (← Parser.spanFrom start) [bound]
    else g .element c

/-- Parameters and body of a function that starts at a given byte. -/
def functionTail (g : Grammar) (c : Context) (start : Nat) (named isAsync isGenerator : Bool) :
    Parser Node := do
  let c := inside c isAsync isGenerator
  let params ← g.parameters c
  let body ← g.functionBody c
  return .function (← Parser.spanFrom start) named params body

/-- A method behind its key. -/
def methodTail (g : Grammar) (c : Context) (start : Nat) (isAsync isGenerator : Bool) :
    Parser Node :=
  g.functionTail { c with withSuper := true } start false isAsync isGenerator

/-- A function as an expression, from `function` on. -/
def functionExpression (g : Grammar) (c : Context) (start : Nat) (isAsync : Bool) :
    Parser Node := do
  Parser.expectWord "function"
  let isGenerator ← Parser.eatMark "*"
  let inner := { inside c isAsync isGenerator with withSuper := false }
  let named ← Parser.atReference inner
  if named then
    let _ ← Parser.bindingName inner
  g.functionTail { c with withSuper := false } start named isAsync isGenerator

/-- A function declaration, from `function` on. -/
def functionDeclaration (g : Grammar) (c : Context) (start : Nat) (isAsync : Bool) :
    Parser Node := do
  Parser.expectWord "function"
  let isGenerator ← Parser.eatMark "*"
  match ← Parser.bindingName c with
  | .name _ text =>
    let function ← g.functionTail { c with withSuper := false } start false isAsync isGenerator
    return .functionDecl (← Parser.spanFrom start) text function
  | _ => Parser.fail

/-- The body of an arrow behind its mark: statements in braces, or one expression. -/
def arrowTail (g : Grammar) (c : Context) (start : Nat) (isAsync : Bool) (params : List Node) :
    Parser Node := do
  if ← Parser.atMark "\x7b" then
    let body ← g.functionBody (inside c isAsync false)
    return .arrow (← Parser.spanFrom start) params body
  else
    let body ← g .assignment { c with inAsync := isAsync, inGenerator := false }
    return .arrow (← Parser.spanFrom start) params [body]

end PageProbe.Script.Grammar
