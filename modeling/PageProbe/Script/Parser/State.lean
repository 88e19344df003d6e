import PageProbe.Script.Node
import PageProbe.Script.Token.Reader

namespace PageProbe.Script

/-- Where a parser stands: the token it looks at, and the text behind that token. -/
structure State where
  token : Token
  /-- The first byte of the token. Comments that a mark of a hypertext document opens belong to the
      token behind them. -/
  start : Nat
  /-- The text from that byte on. -/
  text : List Char
  /-- The end of the token. -/
  stop : Nat
  /-- Whether a line end lies between this token and the one before. -/
  newline : Bool
  /-- The end of the token before. -/
  lastStop : Nat
  rest : List Char
  /-- Where an expression started that may turn out to be the head of an arrow. -/
  arrowStart : Option Nat
deriving Inhabited

inductive Result (α : Type) where
  | done (value : α) (state : State)
  | stopped (state : State)

def Parser (α : Type) := State → Result α

namespace Parser

@[inline] protected def pure (a : α) : Parser α := fun s => .done a s

@[inline] protected def bind (p : Parser α) (f : α → Parser β) : Parser β := fun s =>
  match p s with
  | .done a s => f a s
  | .stopped s => .stopped s

instance : Monad Parser where
  pure := Parser.pure
  bind := Parser.bind

instance : Inhabited (Parser α) := ⟨fun s => .stopped s⟩

/-- Stops at the current token. -/
def fail : Parser α := fun s => .stopped s

def get : Parser State := fun s => .done s s

def set (s : State) : Parser Unit := fun _ => .done () s

/-- Goes on where `p` stops, without a result. -/
def recover (p : Parser α) : Parser (Option α) := fun s =>
  match p s with
  | .done a s => .done (some a) s
  | .stopped s => .done none s

/-- Asks a question only where `b` holds; elsewhere the answer is no. -/
def onlyIf (b : Bool) (p : Parser Bool) : Parser Bool := if b then p else pure false

/-- Repeats a step until it has nothing more to give, at most `n` times. -/
def repeatSome : Nat → Parser (Option α) → Parser (List α)
  | 0, _ => fail
  | n + 1, step => do
    match ← step with
    | none => return []
    | some a =>
      let more ← repeatSome n step
      return a :: more

/-- Repeats a step until it has nothing more to give. Every step has to read something. -/
def many (step : Parser (Option α)) : Parser (List α) := do
  let s ← get
  repeatSome (s.rest.length + 2) step

end Parser

/-- Words that are never names. -/
def reservedWords : List String := [
  "null", "true", "false", "break", "case", "catch", "continue", "debugger", "default", "do",
  "export", "else", "finally", "for", "function", "if", "return", "switch", "throw", "try", "var",
  "const", "while", "with", "new", "this", "super", "class", "extends", "import", "in",
  "instanceof", "typeof", "void", "delete"]

/-- Words that are no names in strict code. -/
def strictWords : List String :=
  ["implements", "package", "protected", "interface", "private", "public"]

/-- Reads the next token, from the text behind the current one. A reserved word may not be written
    with escapes. -/
def State.advance (s : State) : State :=
  let (newline, first) := (Cursor.mk s.stop s.rest).skipBlanks false
  let (newline, c) := first.skipMarks newline
  let (t, c) := readToken c
  let t := match t with
    | .word w true => if reservedWords.contains w then .bad else t
    | _ => t
  { s with
    token := t, start := first.offset, text := first.rest, stop := c.offset, newline := newline,
    lastStop := s.stop, rest := c.rest }

/-- The state at the first token of a text that starts at a byte. A first line that starts with `#!` is skipped. -/
def State.initial (offset : Nat) (cs : List Char) : State :=
  let c : Cursor := ⟨offset, cs⟩
  let c := match cs with
    | '#' :: '!' :: _ => c.skipLine
    | _ => c
  -- The start of a text counts as the start of a line.
  let (_, first) := c.skipBlanks true
  let (_, c) := first.skipMarks true
  let (t, c) := readToken c
  let t := match t with
    | .word w true => if reservedWords.contains w then .bad else t
    | _ => t
  { token := t, start := first.offset, text := first.rest, stop := c.offset, newline := true,
    lastStop := offset, rest := c.rest, arrowStart := none }

/-- What surrounds the text that is parsed. -/
structure Context where
  inGenerator : Bool := false
  inAsync : Bool := false
  strict : Bool := false
  /-- Whether `in` is an operator here. -/
  withIn : Bool := true
  /-- Whether members of `super` may be named here. -/
  withSuper : Bool := false
  inStaticBlock : Bool := false
  /-- Whether this is the head of a loop. -/
  inForHead : Bool := false

namespace Parser

def token : Parser Token := return (← get).token

def position : Parser Nat := return (← get).start

def lastStop : Parser Nat := return (← get).lastStop

def newlineBefore : Parser Bool := return (← get).newline

/-- The span from a byte to the end of the token before the current one. -/
def spanFrom (start : Nat) : Parser Span := return ⟨start, max start (← get).lastStop⟩

def advance : Parser Unit := do set (← get).advance

/-- The token behind the current one, and whether a line end lies between the two. -/
def ahead : Parser (Token × Bool) := do
  let s := (← get).advance
  return (s.token, s.newline)

def atMark (m : String) : Parser Bool := return (← get).token == .punct m

def atWord (w : String) : Parser Bool := return (← get).token == .word w false

def atFinish : Parser Bool := return (← get).token == .finish

def eatMark (m : String) : Parser Bool := do
  if ← atMark m then
    advance
    return true
  else return false

def eatWord (w : String) : Parser Bool := do
  if ← atWord w then
    advance
    return true
  else return false

def expectMark (m : String) : Parser Unit := do if !(← eatMark m) then fail

def expectWord (w : String) : Parser Unit := do if !(← eatWord w) then fail

/-- Whether a statement may end here: at a semicolon, at a closing brace, at the end of the text and
    behind a line end. -/
def atSemicolon : Parser Bool := do
  let s ← get
  return s.token == .punct ";" || s.token == .punct "\x7d" || s.token == .finish || s.newline

/-- Ends a statement, and reads its semicolon if there is one. -/
def eatSemicolon : Parser Bool := do
  if ← eatMark ";" then return true else atSemicolon

def expectSemicolon : Parser Unit := do if !(← eatSemicolon) then fail

/-- The items of a list up to a closing mark, with commas between them. -/
def commaList (close : String) (item : Parser α) : Parser (List α) := do
  let items ← many do
    if (← atMark close) || (← atFinish) then return none
    let a ← item
    if !(← atMark close) then expectMark ","
    return some a
  expectMark close
  return items

/-- Whether a word is no name in a context. -/
def isReserved (c : Context) (w : String) : Bool :=
  reservedWords.contains w || w == "enum" || (w == "let" && c.strict) ||
    (w == "await" && (c.inAsync || c.inStaticBlock || c.strict)) ||
    (w == "yield" && (c.inGenerator || c.strict)) || (c.strict && strictWords.contains w)

/-- Whether a name stands here that can be a reference. -/
def atReference (c : Context) : Parser Bool := do
  match ← token with
  | .word w _ => return !isReserved c w
  | _ => return false

/-- A name that is bound or a label. `yield` and `await` are names unless the context uses them. -/
def bindingName (c : Context) : Parser Node := do
  let s ← get
  match s.token with
  | .word w _ =>
    if reservedWords.contains w || (w == "await" && (c.inAsync || c.inStaticBlock)) then
      -- The word is read before it is refused.
      advance
      fail
    else
      advance
      return .name ⟨s.start, s.stop⟩ w
  | _ => fail

/-- Any word, as the name of a property. -/
def propertyName : Parser String := do
  match ← token with
  | .word w _ =>
    advance
    return w
  | _ => fail

end Parser

/-- The parts of the grammar that contain each other. -/
inductive Goal where
  | assignment
  | unary
  /-- What follows a left operand, with operators that bind tighter than `least`. -/
  | operation (left : Node) (least : Nat)
  /-- A chain of members that may start with `new`. -/
  | construction
  | leftHand
  /-- A statement, or a declaration where these are allowed. -/
  | statement (declarations : Bool)
  /-- An if-statement, with or without its else. -/
  | condition (withElse : Bool)
  /-- A name or a pattern that is bound. -/
  | binding
  /-- A binding with an optional value for what is missing. -/
  | element

/-- A parser for every part of the grammar in every context. -/
abbrev Grammar := Goal → Context → Parser Node

namespace Grammar

/-- One or more assignments with commas between them. -/
def expression (g : Grammar) (c : Context) : Parser Node := do
  let start ← Parser.position
  let first ← g .assignment c
  if ← Parser.atMark "," then
    let more ← Parser.many do
      if ← Parser.eatMark "," then return some (← g .assignment c) else return none
    return .plain .sequence (← Parser.spanFrom start) (first :: more)
  else return first

/-- An item of a list of arguments or elements. -/
def spreadable (g : Grammar) (c : Context) : Parser Node := do
  let start ← Parser.position
  if ← Parser.eatMark "..." then
    let inner ← g .assignment c
    return .spread (← Parser.spanFrom start) inner
  else g .assignment c

/-- Arguments in parentheses. -/
def arguments (g : Grammar) (c : Context) : Parser (List Node) := do
  Parser.expectMark "("
  Parser.commaList ")" (g.spreadable { c with withIn := true })

end Grammar
end PageProbe.Script
