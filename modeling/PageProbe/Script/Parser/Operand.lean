import PageProbe.Script.Parser.Object

namespace PageProbe.Script.Grammar

def templateWith (g : Grammar) (c : Context) (tagged : Bool) : Nat → Parser (List Node)
  | 0 => Parser.fail
  | fuel + 1 => do
    let s ← Parser.get
    match readChunk tagged ⟨s.stop, s.rest⟩ with
    | none => Parser.fail
    | some (.closed, after) =>
      Parser.set { s with stop := after.offset, rest := after.rest }
      Parser.advance
      return []
    | some (.opened, after) =>
      Parser.set { s with stop := after.offset, rest := after.rest }
      Parser.advance
      let inner ← g.expression { c with withIn := true }
      if !(← Parser.atMark "\x7d") then Parser.fail
      let more ← templateWith g c tagged fuel
      return inner :: more

/-- The expressions of a template. Its opening mark is the current token, and the text behind that
    mark has not been read yet. -/
def template (g : Grammar) (c : Context) (tagged : Bool) : Parser (List Node) := do
  let s ← Parser.get
  templateWith g c tagged (s.rest.length + 2)

/-- A regular expression, whose opening slash is the current token. It is read anew from the first byte
    of that token on. -/
def regex (s : State) : Parser Node := do
  match readRegex (Cursor.next ⟨s.start, s.text⟩) with
  | none =>
    Parser.set { s with token := .bad }
    Parser.fail
  | some after =>
    Parser.set { s with stop := after.offset, rest := after.rest }
    Parser.advance
    return .plain .literal (← Parser.spanFrom s.start) []

def array (g : Grammar) (c : Context) : Parser Node := do
  let start ← Parser.position
  Parser.expectMark "["
  let items ← Parser.many do
    if (← Parser.atMark "]") || (← Parser.atFinish) then return none
    let s ← Parser.get
    if ← Parser.eatMark "," then return some (.plain .hole ⟨s.start, s.start⟩ [])
    let item ← g.spreadable { c with withIn := true }
    if !(← Parser.atMark "]") then Parser.expectMark ","
    return some item
  Parser.expectMark "]"
  return .plain .array (← Parser.spanFrom start) items

/-- The parameters of an arrow that were read as items in parentheses. Only the last may take all
    that is left. -/
def arrowParams : List Node → Option (List Node)
  | [] => some []
  | [.spread _ inner] => (inner.toPattern? .bound).map fun p => [.plain .pattern inner.span [p]]
  | .spread _ _ :: rest => arrowParams rest
  | n :: rest => do
    let p ← n.toPattern? .bound
    let rest ← arrowParams rest
    return p :: rest

/-- How tight an operator between two operands binds. -/
def binaryMarks : List (String × Nat) := [
  ("??", 1), ("||", 1), ("&&", 2), ("|", 3), ("^", 4), ("&", 5), ("==", 6), ("!=", 6), ("===", 6),
  ("!==", 6), ("<", 7), ("<=", 7), (">", 7), (">=", 7), ("<<", 8), (">>", 8), (">>>", 8), ("+", 9),
  ("-", 9), ("*", 10), ("/", 10), ("%", 10), ("**", 11)]

/-- Whether an operator between two operands is the current token, words set aside. -/
def atBinaryMark : Parser Bool := do
  match ← Parser.token with
  | .punct m => return (binaryMarks.lookup m).isSome
  | _ => return false

/-- What starts with a parenthesis: an expression, the head of an arrow, or the arguments of a call
    to `async`. The word `async` was read if `asyncSpan` is given. -/
def parenthesis (g : Grammar) (c : Context) (mayBeArrow : Bool)
    (asyncSpan : Option Span) : Parser Node := do
  let open_ ← Parser.position
  let start := (asyncSpan.map (·.start)).getD open_
  Parser.expectMark "("
  let items ← Parser.commaList ")" (g.spreadable { c with withIn := true })
  if ← Parser.atMark "=>" then
    if (← Parser.newlineBefore) || !mayBeArrow then Parser.fail
    Parser.advance
    match arrowParams items with
    | none => Parser.fail
    | some params =>
      let braces ← Parser.atMark "\x7b"
      let arrow ← g.arrowTail c start asyncSpan.isSome params
      -- An operator behind the braces takes the arrow as its left operand.
      if braces && (← atBinaryMark) then return ← g (.operation arrow 0) c
      return arrow
  match asyncSpan with
  | some s => return .call (← Parser.spanFrom start) (.name s "async") items
  | none =>
    match items with
    | [] => Parser.fail
    | [.spread ..] => Parser.fail
    | [inner] => return .paren (← Parser.spanFrom start) inner
    | first :: more =>
      if (first :: more).any (fun | .spread .. => true | _ => false) then Parser.fail
      let last := (more.getLast?.map (·.span.stop)).getD first.span.stop
      let inner : Node := .plain .sequence ⟨first.span.start, last⟩ (first :: more)
      return .paren (← Parser.spanFrom start) inner

/-- A name, or an arrow whose only parameter is that name. -/
def nameOrArrow (g : Grammar) (c : Context) (mayBeArrow : Bool) : Parser Node := do
  let start ← Parser.position
  let name ← Parser.bindingName c
  let isAsync := match name with
    | .name _ text => text == "async"
    | _ => false
  let newline ← Parser.newlineBefore
  if mayBeArrow && !newline then
    if isAsync && (← Parser.atReference c) then
      let (next, _) ← Parser.ahead
      -- In the head of a loop, `async of` starts no arrow unless the mark follows.
      if c.inForHead && (← Parser.atWord "of") && next != .punct "=>" then return name
      let param ← Parser.bindingName c
      Parser.expectMark "=>"
      return ← g.arrowTail c start true [param]
    if ← Parser.eatMark "=>" then return ← g.arrowTail c start false [name]
  return name

def asyncOperand (g : Grammar) (c : Context) (mayBeArrow : Bool) : Parser Node := do
  let s ← Parser.get
  let (next, newline) ← Parser.ahead
  if next == .word "function" false && !newline then
    Parser.advance
    g.functionExpression c s.start true
  else if mayBeArrow && next == .punct "(" && !newline then
    Parser.advance
    parenthesis g c mayBeArrow (some ⟨s.start, s.stop⟩)
  else nameOrArrow g c mayBeArrow

/-- An operand without its members and calls. -/
def primary (g : Grammar) (c : Context) : Parser Node := do
  let s ← Parser.get
  let mayBeArrow := s.arrowStart == some s.start
  let literal : Parser Node := do
    Parser.advance
    return .plain .literal ⟨s.start, s.stop⟩ []
  match s.token with
  | .word "this" _ =>
    Parser.advance
    return .this ⟨s.start, s.stop⟩
  | .word "async" false => asyncOperand g c mayBeArrow
  | .word "function" _ => g.functionExpression c s.start false
  | .word "class" _ => g.classNode c s.start false
  | .word "null" _ => literal
  | .word "true" _ => literal
  | .word "false" _ => literal
  | .number _ => literal
  | .bigint => literal
  | .string v =>
    Parser.advance
    return .string ⟨s.start, s.stop⟩ v
  | .punct "[" => array g c
  | .punct "\x7b" => g.object c
  | .punct "/" => regex s
  | .punct "/=" => regex s
  | .punct "\x60" => do
    let parts ← template g c false
    return .plain .template (← Parser.spanFrom s.start) parts
  | .punct "(" => parenthesis g c mayBeArrow none
  | .word w _ => if w == "let" || !Parser.isReserved c w then nameOrArrow g c mayBeArrow else Parser.fail
  | .privateName _ => do
    Parser.advance
    if !(← Parser.atWord "in") then Parser.fail
    return .plain .literal ⟨s.start, s.stop⟩ []
  | _ => Parser.fail

/-- What a chain of members and calls starts with. -/
inductive Head where
  | node (n : Node)
  | super (span : Span)
  | import_ (span : Span)

def Head.start : Head → Nat
  | .node n => n.span.start
  | .super s => s.start
  | .import_ s => s.start

def isChain : Node → Bool
  | .plain .optionalChain _ _ => true
  | _ => false

/-- The member of a node, or of `super`. A member of an optional chain belongs to that chain. -/
def memberOf (h : Head) (optional : Bool) (span : Span) (key : Option String)
    (parts : List Node) : Node :=
  match h with
  | .node n =>
    if optional || isChain n then .plain .optionalChain span (n :: parts)
    else .member span n key parts
  | _ => .plain .superMember span parts

/-- Whether a member may be taken of a head: `super` needs a method around it, is never optional and
    has no private members, and `import` has no members. -/
def admitsMember (c : Context) (h : Head) (optional isPrivate : Bool) : Bool :=
  match h with
  | .node _ => true
  | .super _ => c.withSuper && !optional && !isPrivate
  | .import_ _ => false

def bracketKey (inner : Node) : Option String :=
  match inner with
  | .string _ v => some v
  | _ => none

/-- One more member, call or template of a chain, if one follows. -/
def chainStep (g : Grammar) (c : Context) (calls : Bool) (start : Nat) (h : Head) :
    Parser (Option Node) := do
  let optional ← Parser.eatMark "?."
  if ← Parser.atMark "[" then
    Parser.advance
    let inner ← g.expression { c with withIn := true }
    Parser.expectMark "]"
    if !admitsMember c h optional false then Parser.fail
    let span ← Parser.spanFrom start
    return some (memberOf h optional span (bracketKey inner) [inner])
  if (← Parser.atMark "(") && (optional || calls) then
    let args ← g.arguments c
    let span ← Parser.spanFrom start
    match h with
    | .node n =>
      if optional || isChain n then return some (.plain .optionalChain span (n :: args))
      else return some (.call span n args)
    | .super s => if optional then Parser.fail else return some (.call span (.plain .superMember s []) args)
    | .import_ s =>
      if optional || args.isEmpty then Parser.fail
      else return some (.call span (.plain .metaProperty s []) args)
  if optional && (← Parser.atMark "\x60") then Parser.fail
  let named ← if optional then pure true else Parser.eatMark "."
  if named then
    let s ← Parser.get
    let key ← match s.token with
      | .privateName _ => do
        Parser.advance
        pure none
      | _ => some <$> Parser.propertyName
    if !admitsMember c h optional key.isNone then Parser.fail
    let span ← Parser.spanFrom start
    return some (memberOf h optional span key [])
  match h with
  | .node n =>
    if ← Parser.atMark "\x60" then
      if isChain n then Parser.fail
      let parts ← template g c true
      return some (.plain .tagged (← Parser.spanFrom start) (n :: parts))
    return none
  | _ => Parser.fail

def chainWith (g : Grammar) (c : Context) (calls : Bool) (start : Nat) :
    Nat → Head → Parser Node
  | 0, _ => Parser.fail
  | fuel + 1, h => do
    match ← chainStep g c calls start h with
    | some n => chainWith g c calls start fuel (.node n)
    | none =>
      match h with
      | .node n => return n
      | _ => Parser.fail

/-- The members, and with `calls` the calls, that follow a head. -/
def chain (g : Grammar) (c : Context) (calls : Bool) (h : Head) : Parser Node := do
  let s ← Parser.get
  chainWith g c calls h.start (s.rest.length + 2) h

/-- What `import` starts inside an expression. -/
def importTail (g : Grammar) (c : Context) (calls : Bool) (span : Span) : Parser Node := do
  if ← Parser.eatMark "." then
    Parser.expectWord "meta"
    let n : Node := .plain .metaProperty (← Parser.spanFrom span.start) []
    chain g c calls (.node n)
  else chain g c calls (.import_ span)

def isArrow : Node → Bool
  | .arrow .. => true
  | _ => false

/-- A chain of members, perhaps behind `new`. -/
def construction (g : Grammar) (c : Context) : Parser Node := do
  let s ← Parser.get
  if ← Parser.eatWord "new" then
    if ← Parser.eatMark "." then
      Parser.expectWord "target"
      let n : Node := .plain .metaProperty (← Parser.spanFrom s.start) []
      return ← chain g c false (.node n)
    let callee ← g .construction c
    if isArrow callee then return callee
    if isChain callee then Parser.fail
    if ← Parser.atMark "(" then
      let args ← g.arguments c
      let n : Node := .plain .construction (← Parser.spanFrom s.start) (callee :: args)
      return ← chain g c false (.node n)
    return .plain .construction (← Parser.spanFrom s.start) [callee]
  if ← Parser.eatWord "super" then return ← chain g c false (.super ⟨s.start, s.stop⟩)
  if ← Parser.eatWord "import" then return ← importTail g c false ⟨s.start, s.stop⟩
  let n ← primary g c
  if isArrow n then return n
  chain g c false (.node n)

/-- A chain of members and calls. -/
def leftHand (g : Grammar) (c : Context) : Parser Node := do
  let s ← Parser.get
  if ← Parser.eatWord "super" then return ← chain g c true (.super ⟨s.start, s.stop⟩)
  if ← Parser.eatWord "import" then return ← importTail g c true ⟨s.start, s.stop⟩
  let n ← g .construction c
  if isArrow n then return n
  if ← Parser.atMark "(" then
    let args ← g.arguments c
    let span ← Parser.spanFrom s.start
    let call : Node :=
      if isChain n then .plain .optionalChain span (n :: args) else .call span n args
    chain g c true (.node call)
  else return n

end PageProbe.Script.Grammar
