import PageProbe.Script.Token
import PageProbe.Text.Word

namespace PageProbe.Script

def isLineEnd (c : Char) : Bool := c == '\n' || c == '\r' || c == '\u2028' || c == '\u2029'

def isSpace (c : Char) : Bool := Text.isBlank c || c == '\uFEFF'

/-- The cursor at the end of the line. -/
def Cursor.skipLine (c : Cursor) : Cursor := (c.takeWhile (fun x => !isLineEnd x)).2

/-- The end of a comment behind its opening mark, and whether it holds a line end. A comment that is
    never closed ends with the text. -/
def skipBlock (line : Bool) (offset : Nat) : List Char → Bool × Cursor
  | [] => (line, ⟨offset, []⟩)
  | '*' :: '/' :: rest => (line, ⟨offset + 2, rest⟩)
  | x :: rest => skipBlock (line || isLineEnd x) (offset + x.utf8Size) rest

/-- Skips blanks and comments; the flag tells whether a line end was among them. -/
def skipWith : Nat → Bool → Cursor → Bool × Cursor
  | 0, line, c => (line, c)
  | fuel + 1, line, c =>
    match c.rest with
    | '/' :: '/' :: _ => skipWith fuel line c.skipLine
    | '/' :: '*' :: rest =>
      let (inside, c) := skipBlock false (c.offset + 2) rest
      skipWith fuel (line || inside) c
    | x :: _ =>
      if isLineEnd x then skipWith fuel true c.next
      else if isSpace x then skipWith fuel line c.next
      else (line, c)
    | [] => (line, c)

def Cursor.skipBlanks (line : Bool) (c : Cursor) : Bool × Cursor :=
  skipWith (c.rest.length + 1) line c

/-- Skips the comments that a mark of a hypertext document opens: `<!--` anywhere, and `-->` at the
    start of a line. -/
def skipMarksWith : Nat → Bool → Cursor → Bool × Cursor
  | 0, line, c => (line, c)
  | fuel + 1, line, c =>
    match c.rest with
    | '<' :: '!' :: '-' :: '-' :: _ =>
      let (line, c) := c.skipLine.skipBlanks line
      skipMarksWith fuel line c
    | '-' :: '-' :: '>' :: _ =>
      if line then
        let (line, c) := c.skipLine.skipBlanks line
        skipMarksWith fuel line c
      else (line, c)
    | _ => (line, c)

def Cursor.skipMarks (line : Bool) (c : Cursor) : Bool × Cursor :=
  skipMarksWith (c.rest.length + 1) line c

end PageProbe.Script
