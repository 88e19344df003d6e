import PageProbe.Text.Category

namespace PageProbe.Text

open Category

/-- Characters that keep their place at the start of identifiers although their category changed. -/
def keptStarts : List (Nat × Nat) :=
  [(0x1885, 0x1886), (0x2118, 0x2118), (0x212E, 0x212E), (0x309B, 0x309C)]

/-- Characters that continue identifiers although their category does not. -/
def keptParts : List (Nat × Nat) :=
  [(0xB7, 0xB7), (0x387, 0x387), (0x1369, 0x1371), (0x19DA, 0x19DA), (0x200C, 0x200D),
   (0x30FB, 0x30FB), (0xFF65, 0xFF65)]

/-- Whether an identifier may start with `c`. -/
def startsIdentifier (c : Char) : Bool :=
  if c.toNat < 0x80 then c.isAlpha || c == '$' || c == '_'
  else (within letters c && c != '\u2E2F') || within keptStarts c

/-- Whether an identifier may go on with `c`. -/
def continuesIdentifier (c : Char) : Bool :=
  if c.toNat < 0x80 then c.isAlphanum || c == '$' || c == '_'
  else startsIdentifier c || within marks c || within digits c || within connectors c ||
    within keptParts c

end PageProbe.Text
