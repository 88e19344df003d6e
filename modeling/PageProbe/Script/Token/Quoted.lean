import PageProbe.Script.Token.Blank
import PageProbe.Script.Token.Escape
import PageProbe.Text.Identifier

namespace PageProbe.Script

/-- The code points of a quoted text up to its closing quote. The text may not contain a line feed
    or a carriage return. -/
def quotedCodes (quote : Char) : Nat → Cursor → Option (List Nat × Cursor)
  | 0, _ => none
  | fuel + 1, c =>
    match c.rest with
    | [] => none
    | '\\' :: _ => do
      let (codes, c) ← escape? true c.next
      let (more, c) ← quotedCodes quote fuel c
      return (codes ++ more, c)
    | x :: _ =>
      if x == quote then some ([], c.next)
      else if x == '\n' || x == '\r' then none
      else do
        let (more, c) ← quotedCodes quote fuel c.next
        return (x.toNat :: more, c)

/-- A quoted text behind its opening quote. -/
def readQuoted (quote : Char) (c : Cursor) : Token × Cursor :=
  match quotedCodes quote (c.rest.length + 1) c with
  | some (codes, c) => (.string (String.ofList (joinCodes codes)), c)
  | none => (.bad, c)

/-- What a piece of a template ends with: the template's own end, or the start of an expression. -/
inductive ChunkEnd where
  | closed
  | opened
deriving DecidableEq, Repr, Inhabited

def chunkWith (tagged : Bool) : Nat → Cursor → Option (ChunkEnd × Cursor)
  | 0, _ => none
  | fuel + 1, c =>
    match c.rest with
    | [] => none
    | '\x60' :: _ => some (.closed, c.next)
    | '$' :: '\x7b' :: _ => some (.opened, c.next.next)
    | '\\' :: _ =>
      match escape? false c.next with
      | some (_, c) => chunkWith tagged fuel c
      | none =>
        if tagged && c.next.rest != [] then chunkWith tagged fuel c.next.next else none
    | _ => chunkWith tagged fuel c.next

/-- Skips a piece of a template. Only a tagged template may hold escapes that mean nothing. -/
def readChunk (tagged : Bool) (c : Cursor) : Option (ChunkEnd × Cursor) :=
  chunkWith tagged (c.rest.length + 1) c

def regexBody : Nat → Bool → Cursor → Option Cursor
  | 0, _, _ => none
  | fuel + 1, inClass, c =>
    match c.rest with
    | [] => none
    | x :: rest =>
      if x == '\n' || x == '\r' then none
      else if x == '\\' then
        match rest with
        | y :: _ => if y == '\n' || y == '\r' then none else regexBody fuel inClass c.next.next
        | [] => none
      else if x == '/' && !inClass then some c.next
      else regexBody fuel (if x == '[' then true else if x == ']' then false else inClass) c.next

/-- The end of a regular expression behind its opening slash, flags included. -/
def readRegex (c : Cursor) : Option Cursor :=
  (regexBody (c.rest.length + 1) false c).map fun c => (c.takeWhile Text.continuesIdentifier).2

end PageProbe.Script
