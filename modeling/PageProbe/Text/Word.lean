import PageProbe.Text.Category

namespace PageProbe.Text

open Category

/-- Circled and squared letters, which count as alphabetic. -/
def framedLetters : List (Nat × Nat) :=
  [(0x24B6, 0x24E9), (0x1F130, 0x1F149), (0x1F150, 0x1F169), (0x1F170, 0x1F189)]

/-- A letter, mark, digit, connector or joiner. -/
def isWord (c : Char) : Bool :=
  if c.toNat < 0x80 then c.isAlphanum || c == '_'
  else within letters c || within marks c || within enclosingMarks c || within digits c ||
    within connectors c || within framedLetters c || c == '\u200C' || c == '\u200D'

/-- Blanks, line ends included. -/
def isBlank (c : Char) : Bool :=
  within [(0x9, 0xD), (0x20, 0x20), (0x85, 0x85), (0xA0, 0xA0), (0x1680, 0x1680), (0x2000, 0x200A),
    (0x2028, 0x2029), (0x202F, 0x202F), (0x205F, 0x205F), (0x3000, 0x3000)] c

def trimStart (cs : List Char) : List Char := cs.dropWhile isBlank

def trimEnd (cs : List Char) : List Char := (cs.reverse.dropWhile isBlank).reverse

/-- A text without the blanks around it. -/
def trim (s : String) : String := String.ofList (trimEnd (trimStart s.toList))

/-- Whether `c` is the small ASCII letter `letter` when case is set aside. The long s counts as an
    s and the sign of the kelvin as a k. -/
def isLetter (letter c : Char) : Bool :=
  c == letter || c == letter.toUpper || (letter == 's' && c == '\u017F') ||
    (letter == 'k' && c == '\u212A')

end PageProbe.Text
