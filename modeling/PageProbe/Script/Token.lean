import PageProbe.Number.Double
import PageProbe.Text.Bytes

namespace PageProbe.Script

inductive Token where
  /-- A name or a keyword, with its escapes resolved. -/
  | word (text : String) (escaped : Bool)
  | privateName (text : String)
  | punct (text : String)
  | number (value : Double)
  | bigint
  | string (value : String)
  | finish
  /-- Text that is no token. No script with such a token is well formed. -/
  | bad
deriving DecidableEq, Repr, Inhabited

/-- A place in a script: the text that is left and the byte at which it starts. -/
structure Cursor where
  offset : Nat
  rest : List Char
deriving Inhabited

namespace Cursor

/-- The cursor behind its next character. -/
def next (c : Cursor) : Cursor :=
  match c.rest with
  | [] => c
  | x :: xs => ⟨c.offset + x.utf8Size, xs⟩

/-- The cursor behind its next `n` characters. -/
def advance : Nat → Cursor → Cursor
  | 0, c => c
  | n + 1, c => advance n c.next

/-- Splits off the characters that satisfy `p`. -/
def takeWhile (p : Char → Bool) (c : Cursor) : List Char × Cursor :=
  let taken := c.rest.takeWhile p
  (taken, ⟨c.offset + Text.width taken, c.rest.dropWhile p⟩)

end Cursor
end PageProbe.Script
