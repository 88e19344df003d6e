import PageProbe.Script.Parser.Operator

namespace PageProbe.Script.Grammar

def statementFrom (start : Nat) (parts : List Node) : Parser Node :=
  return .statement (← Parser.spanFrom start) parts

/-- One declared name or pattern. A pattern needs a value, except at the head of a loop. -/
def declarator (g : Grammar) (c : Context) (inHead : Bool) : Parser Node := do
  let start ← Parser.position
  let bound ← g .binding c
  let loops := inHead && ((← Parser.atWord "in") || (← Parser.atWord "of"))
  if ← Parser.onlyIf (!loops) (Parser.eatMark "=") then
    let value ← g .assignment c
    return .declarator (← Parser.spanFrom start) bound (some value)
  if !loops then
    match bound with
    | .name .. => pure ()
    | _ => Parser.fail
  return .declarator (← Parser.spanFrom start) bound none

/-- Skips what stands between a declaration and its semicolon. -/
def skipToSemicolon : Parser Unit := do
  let _ ← Parser.many do
    if ← Parser.eatSemicolon then return none
    Parser.advance
    if (← Parser.token) == .bad then return none
    return some ()

/-- The names that a word such as `var` declares. Outside the head of a loop the declaration ends
    with its semicolon, and an expression or other text before that semicolon is passed over. -/
def declarationList (g : Grammar) (c : Context) (inHead : Bool) : Parser Node := do
  let s ← Parser.get
  let c := { c with withIn := c.withIn || s.token != .word "var" false || !inHead }
  Parser.advance
  let noLet := s.token != .word "var" false
  let more ← Parser.many do
    let first := (← Parser.lastStop) == s.stop
    let goesOn ← if first then pure true else Parser.eatMark ","
    if !goesOn then return none
    if (← Parser.atMark ";") || (← Parser.atFinish) then return none
    if noLet && (← Parser.atWord "let") then Parser.fail
    return some (← declarator g c inHead)
  let ended ← if inHead then pure true else Parser.eatSemicolon
  if !ended then
    let _ ← Parser.recover (g.expression c)
    skipToSemicolon
  return .varDecl (← Parser.spanFrom s.start) more

/-- An expression in parentheses. -/
def header (g : Grammar) (c : Context) : Parser Node := do
  Parser.expectMark "("
  let test ← g.expression { c with withIn := true }
  Parser.expectMark ")"
  return test

/-- An if-statement. The statements behind `else if` belong to it one by one. -/
def condition (g : Grammar) (c : Context) (withElse : Bool) : Parser Node := do
  let start ← Parser.position
  Parser.expectWord "if"
  let test ← header g c
  let body ← g (.statement false) c
  if ← Parser.onlyIf withElse (Parser.eatWord "else") then
    let other ←
      if ← Parser.atWord "if" then g (.condition true) c else g (.statement false) c
    statementFrom start [test, body, other]
  else statementFrom start [test, body]

/-- What follows the first semicolon in the head of a loop. -/
def loopTail (g : Grammar) (c : Context) : Parser (List Node) := do
  let c := { c with withIn := true, inForHead := false }
  let test ←
    if ← Parser.eatMark ";" then pure []
    else
      let t ← g.expression c
      Parser.expectMark ";"
      pure [t]
  let update ← if ← Parser.atMark ")" then pure [] else pure [← g.expression c]
  return test ++ update

def atEach : Parser Bool := return (← Parser.atWord "of") || (← Parser.atWord "in")

/-- What follows the variable in the head of a loop over something. -/
def eachTail (g : Grammar) (c : Context) : Parser Node := do
  let c := { c with withIn := true, inForHead := false }
  if ← Parser.eatWord "of" then g .assignment c
  else
    Parser.expectWord "in"
    g.expression c

/-- Whether a word after `let` makes it declare something. -/
def declares : Token → Bool
  | .punct m => m == "\x7b" || m == "["
  | .word w _ => !reservedWords.contains w
  | _ => false

/-- The parts of the head of a loop, and whether it runs over all of something with `of`. -/
def loopHead (g : Grammar) (c : Context) : Parser (List Node × Bool) := do
  let c := { c with withIn := false, inForHead := true }
  let (next, _) ← Parser.ahead
  let declared := (← Parser.atWord "const") || (← Parser.atWord "var") ||
    ((← Parser.atWord "let") && declares next)
  if declared then
    let v ← declarationList g c true
    if ← atEach then
      let isOf ← Parser.atWord "of"
      return ([v, ← eachTail g c], isOf)
    Parser.expectMark ";"
    return (v :: (← loopTail g c), false)
  if ← Parser.eatMark ";" then return (← loopTail g c, false)
  let first ← g.expression c
  if ← atEach then
    match first.toPattern? .assigned with
    | none => Parser.fail
    | some target =>
      let isOf ← Parser.atWord "of"
      return ([target, ← eachTail g c], isOf)
  Parser.expectMark ";"
  return (first :: (← loopTail g c), false)

def forStatement (g : Grammar) (c : Context) : Parser Node := do
  let start ← Parser.position
  Parser.expectWord "for"
  let awaits ← Parser.eatWord "await"
  Parser.expectMark "("
  let (head, isOf) ← loopHead g c
  Parser.expectMark ")"
  let body ← g (.statement false) c
  if awaits && !isOf then Parser.fail
  statementFrom start (head ++ [body])

/-- The test comes before the body, although it stands behind it. -/
def doStatement (g : Grammar) (c : Context) : Parser Node := do
  let start ← Parser.position
  Parser.expectWord "do"
  let body ← g (.statement false) c
  Parser.expectWord "while"
  let test ← header g c
  let _ ← Parser.eatSemicolon
  statementFrom start [test, body]

def caseClause (g : Grammar) (c : Context) (hadDefault : Bool) : Parser (List Node) := do
  let test ←
    if ← Parser.eatWord "case" then pure [← g.expression { c with withIn := true }]
    else
      Parser.expectWord "default"
      if hadDefault then Parser.fail
      pure []
  Parser.expectMark ":"
  let body ← Parser.many do
    if (← Parser.atFinish) || (← Parser.atWord "case") || (← Parser.atWord "default") ||
        (← Parser.atMark "\x7d") then return none
    return some (← g (.statement true) c)
  return test ++ body

def caseClauses (g : Grammar) (c : Context) : Nat → Bool → Parser (List Node)
  | 0, _ => Parser.fail
  | fuel + 1, hadDefault => do
    let isDefault ← Parser.atWord "default"
    if !isDefault && !(← Parser.atWord "case") then return []
    let parts ← caseClause g c hadDefault
    let more ← caseClauses g c fuel (hadDefault || isDefault)
    return parts ++ more

def switchStatement (g : Grammar) (c : Context) : Parser Node := do
  let start ← Parser.position
  Parser.expectWord "switch"
  let subject ← header g c
  Parser.expectMark "\x7b"
  let s ← Parser.get
  let parts ← caseClauses g c (s.rest.length + 2) false
  Parser.expectMark "\x7d"
  statementFrom start (subject :: parts)

def catchClause (g : Grammar) (c : Context) : Parser (List Node) := do
  if ← Parser.eatWord "catch" then
    let param ←
      if ← Parser.eatMark "(" then
        let p ← g .binding c
        Parser.expectMark ")"
        pure [p]
      else pure []
    return param ++ [← g.block c]
  else return []

def finallyClause (g : Grammar) (c : Context) : Parser (List Node) := do
  if ← Parser.eatWord "finally" then return [← g.block c] else return []

def tryStatement (g : Grammar) (c : Context) : Parser Node := do
  let start ← Parser.position
  Parser.expectWord "try"
  let body ← g.block c
  let handler ← catchClause g c
  let last ← finallyClause g c
  statementFrom start (body :: handler ++ last)

def jumpStatement : Parser Node := do
  let start ← Parser.position
  Parser.advance
  if !(← Parser.eatSemicolon) then
    let _ ← Parser.bindingName {}
    Parser.expectSemicolon
  statementFrom start []

def returnStatement (g : Grammar) (c : Context) : Parser Node := do
  let start ← Parser.position
  Parser.advance
  let value ← if ← Parser.atSemicolon then pure [] else pure [← g.expression c]
  Parser.expectSemicolon
  statementFrom start value

def throwStatement (g : Grammar) (c : Context) : Parser Node := do
  let start ← Parser.position
  Parser.advance
  if ← Parser.newlineBefore then Parser.fail
  let value ← g.expression c
  Parser.expectSemicolon
  statementFrom start [value]

/-- A statement with a test in front: `while` and `with`. -/
def guarded (g : Grammar) (c : Context) : Parser Node := do
  let start ← Parser.position
  Parser.advance
  let test ← header g c
  let body ← g (.statement false) c
  statementFrom start [test, body]

/-- A clause of a try-statement that stands alone. Whatever is wrong with it is passed over. -/
def strayClause (g : Grammar) (c : Context) : Parser Node := do
  let s ← Parser.get
  let _ ← Parser.recover (catchClause g c)
  let _ ← Parser.recover (finallyClause g c)
  return .statement ⟨s.start, s.stop⟩ []

def isName : Node → Bool
  | .name .. => true
  | _ => false

/-- A statement that starts with an expression: it may turn out to have a label. An operator behind
    the expression takes it as its left operand. -/
def expressionStatement (g : Grammar) (c : Context) : Parser Node := do
  let start ← Parser.position
  let e ← g.expression c
  if ← Parser.onlyIf (isName e) (Parser.eatMark ":") then
    let body ←
      if ← Parser.atWord "function" then
        let at_ ← Parser.position
        let f ← g.functionDeclaration c at_ false
        statementFrom at_ [f]
      else g (.statement false) c
    return ← statementFrom start [body]
  if ← Parser.eatSemicolon then return ← statementFrom start [e]
  if ← atBinaryMark then
    let e ← g (.operation e 0) c
    return ← statementFrom start [e]
  Parser.fail

/-- A call or a member of `import` as a statement. Nothing has to end it. -/
def importStatement (g : Grammar) (c : Context) : Parser Node := do
  let start ← Parser.position
  let (next, _) ← Parser.ahead
  if next == .punct "(" || next == .punct "." then
    let e ← g.expression c
    let _ ← Parser.eatSemicolon
    statementFrom start [e]
  else Parser.fail

/-- A statement. Where declarations are not allowed, `const` starts none and `let` is a name. -/
def statement (g : Grammar) (c : Context) (declarations : Bool) : Parser Node := do
  let c := { c with withIn := true, inForHead := false }
  let start ← Parser.position
  match ← Parser.token with
  | .finish => Parser.fail
  | .punct "\x7b" => do
    match ← g.block c with
    | .plain _ s parts => return .statement s parts
    | n => return n
  | .punct ";" =>
    Parser.advance
    statementFrom start []
  | .word w false =>
    match w with
    | "import" => importStatement g c
    | "export" => Parser.fail
    | "break" => jumpStatement
    | "continue" => jumpStatement
    | "debugger" =>
      Parser.advance
      Parser.expectSemicolon
      statementFrom start []
    | "do" => doStatement g c
    | "for" => forStatement g c
    | "function" => do
      let f ← g.functionDeclaration c start false
      statementFrom start [f]
    | "class" => do
      let k ← g.classNode c start true
      statementFrom start [k]
    | "if" => g (.condition true) c
    | "return" => returnStatement g c
    | "switch" => switchStatement g c
    | "throw" => throwStatement g c
    | "catch" => strayClause g c
    | "finally" => strayClause g c
    | "try" => tryStatement g c
    | "with" => guarded g c
    | "while" => guarded g c
    | "var" => do
      let v ← declarationList g c false
      statementFrom start [v]
    | "const" =>
      if declarations then
        let v ← declarationList g c false
        statementFrom start [v]
      else expressionStatement g c
    | "let" => do
      let (next, _) ← Parser.ahead
      if declarations && declares next then
        let v ← declarationList g c false
        statementFrom start [v]
      else expressionStatement g c
    | "async" => do
      let (next, newline) ← Parser.ahead
      if next == .word "function" false && !newline then
        Parser.advance
        let f ← g.functionDeclaration c start true
        statementFrom start [f]
      else expressionStatement g c
    | _ => expressionStatement g c
  | _ => expressionStatement g c

end PageProbe.Script.Grammar
