import PageProbe.Script.Token.Numeral
import PageProbe.Script.Token.Quoted

/-!
A slash is always read as an operator, and the marks of a template as punctuation: only the parser
knows where a regular expression may start and where a template goes on.
-/

namespace PageProbe.Script

def hexed (n : Nat) : Char := if n < 0xD800 ∨ 0xE000 ≤ n then Char.ofNat n else '\uFFFD'

/-- The characters of a name and whether any of them was escaped. -/
def nameChars : Nat → Cursor → Option (List Char × Bool × Cursor)
  | 0, c => some ([], false, c)
  | fuel + 1, c =>
    match c.rest with
    | '\\' :: 'u' :: _ => do
      let (n, c) ← unicodeEscape? c.next.next
      let (more, _, c) ← nameChars fuel c
      return (hexed n :: more, true, c)
    | '\\' :: _ => none
    | x :: _ =>
      if Text.continuesIdentifier x then do
        let (more, escaped, c) ← nameChars fuel c.next
        return (x :: more, escaped, c)
      else some ([], false, c)
    | [] => some ([], false, c)

def readName (make : String → Bool → Token) (c : Cursor) : Token × Cursor :=
  match nameChars (c.rest.length + 1) c with
  | some (cs, escaped, c) => (make (String.ofList cs) escaped, c)
  | none => (.bad, c)

/-- The punctuation marks, longer ones before their beginnings. -/
def marks : List String := [
  ">>>=", "...", "===", "!==", "**=", "<<=", ">>=", ">>>", "&&=", "||=", "??=", "=>", "==", "!=",
  "<=", ">=", "&&", "||", "??", "?.", "++", "--", "+=", "-=", "*=", "/=", "%=", "&=", "|=", "^=",
  "<<", ">>", "**", "\x7b", "\x7d", "(", ")", "[", "]", ";", ",", "<", ">", "+", "-", "*", "/",
  "%", "&", "|", "^", "!", "~", "?", ":", "=", ".", "\x60"]

/-- A question mark before `.5` is the mark of a condition and not of an optional chain. -/
def fits (mark : String) (cs : List Char) : Bool :=
  mark.toList.isPrefixOf cs &&
    !(mark == "?." && ((cs.drop 2).head?.map Char.isDigit).getD false)

def readMark (c : Cursor) : Token × Cursor :=
  match marks.find? (fun m => fits m c.rest) with
  | some m => (.punct m, c.advance m.length)
  | none => (.bad, c)

/-- The token at the cursor, at which no blank stands, and the cursor behind it. -/
def readToken (c : Cursor) : Token × Cursor :=
  match c.rest with
  | [] => (.finish, c)
  | x :: rest =>
    if Text.startsIdentifier x || x == '\\' then readName .word c
    else if x.isDigit then readNumber c
    else if x == '.' && ((rest.head?.map Char.isDigit).getD false) then readNumber c
    else if x == '"' || x == '\x27' then readQuoted x c.next
    else if x == '#' then
      match rest with
      | y :: _ =>
        if Text.startsIdentifier y || y == '\\' then readName (fun s _ => .privateName s) c.next
        else (.bad, c)
      | [] => (.bad, c)
    else readMark c

end PageProbe.Script
