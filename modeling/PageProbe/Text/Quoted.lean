import PageProbe.Text.Word

namespace PageProbe.Text

open Category

/-- Characters that only steer how others are laid out. -/
def layoutControls : List (Nat × Nat) :=
  [(0xAD, 0xAD), (0x600, 0x605), (0x61C, 0x61C), (0x6DD, 0x6DD), (0x70F, 0x70F), (0x890, 0x891),
   (0x8E2, 0x8E2), (0x180E, 0x180E), (0x200B, 0x200F), (0x202A, 0x202E), (0x2060, 0x206F),
   (0xFEFF, 0xFEFF), (0xFFF9, 0xFFFB)]

/-- Characters without a meaning of their own, left to private agreement. -/
def privateUse : List (Nat × Nat) :=
  [(0xE000, 0xF8FF), (0xF0000, 0xFFFFD), (0x100000, 0x10FFFD)]

/-- Whether a character shows between quotes. -/
def isVisible (c : Char) : Bool :=
  c == ' ' || !(decide (c.toNat < 0x20) || within [(0x7F, 0x9F)] c || isBlank c ||
    within marks c || within enclosingMarks c || within layoutControls c || within privateUse c)

/-- A character between quotes. -/
def quoteChar (c : Char) : List Char :=
  if c = '"' then ['\\', '"']
  else if c = '\\' then ['\\', '\\']
  else if c = '\n' then ['\\', 'n']
  else if c = '\r' then ['\\', 'r']
  else if c = '\t' then ['\\', 't']
  else if c = '\x00' then ['\\', '0']
  else if isVisible c then [c]
  else '\\' :: 'u' :: '\x7b' :: Nat.toDigits 16 c.toNat ++ ['\x7d']

def quoted (s : String) : String :=
  String.ofList ('"' :: s.toList.flatMap quoteChar ++ ['"'])

end PageProbe.Text
