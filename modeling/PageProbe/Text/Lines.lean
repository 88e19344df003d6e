import PageProbe.Text.Bytes

namespace PageProbe.Text

/-- The places behind the line feeds among some bytes, the first of which stands at `place`. -/
def behindLineFeeds (place : Nat) (bs : Bytes) : List Nat :=
  ((bs.zipIdx (place + 1)).filter (·.1 == 0x0A)).map (·.2)

/-- Where the lines of a text start: at its first byte, and behind every byte that is a line feed.
    There is always a last line, which may be empty. -/
def lineStarts (cs : List Char) : List Nat :=
  0 :: behindLineFeeds 0 (cs.flatMap String.utf8EncodeChar)

def lineCount (cs : List Char) : Nat := (lineStarts cs).length

/-- The byte offset of a line, counted from one, and a column, counted in characters from zero. A
    column past the end of its line, line feed included, stands for that end. -/
def offset? (cs : List Char) (line column : Nat) : Option Nat :=
  match line with
  | 0 => none
  | k + 1 => do
    let start ← (lineStarts cs)[k]?
    let stop := (lineStarts cs)[k + 1]?.getD (width cs)
    return start + width ((slice cs ⟨start, stop⟩).take column)

/-- The number of line ends in a text: line feeds, and carriage returns that no line feed follows. -/
def lineBreaks : List Char → Nat
  | [] => 0
  | '\n' :: cs => lineBreaks cs + 1
  | '\r' :: '\n' :: cs => lineBreaks cs + 1
  | '\r' :: cs => lineBreaks cs + 1
  | _ :: cs => lineBreaks cs

/-- The characters that start before a byte offset. -/
def before (offset : Nat) : List Char → List Char
  | [] => []
  | c :: cs => if offset = 0 then [] else c :: before (offset - c.utf8Size) cs

/-- The line of a byte offset, counted from one. A carriage return right before the offset ends no
    line when a line feed stands at the offset. -/
def lineAt (cs : List Char) (offset : Nat) : Nat :=
  let head := before offset cs
  let split := head.getLast? == some '\r' && (cs.drop head.length).head? == some '\n'
  lineBreaks head + 1 - (if split then 1 else 0)

end PageProbe.Text
