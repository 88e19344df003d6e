import PageProbe.Span

namespace PageProbe.Text

/-- A string of bytes, as a page sends and receives them. -/
abbrev Bytes := List UInt8

/-- The number of bytes that `cs` takes. -/
def width : List Char → Nat
  | [] => 0
  | c :: cs => c.utf8Size + width cs

@[simp] theorem width_nil : width [] = 0 := rfl

@[simp] theorem width_cons (c : Char) (cs : List Char) : width (c :: cs) = c.utf8Size + width cs :=
  rfl

@[simp] theorem width_append (xs ys : List Char) : width (xs ++ ys) = width xs + width ys := by
  induction xs with
  | nil => simp
  | cons c cs ih => simp [ih, Nat.add_assoc]

/-- What is left of `cs` after its first `n` bytes, if these end at a character. -/
def dropBytes? : Nat → List Char → Option (List Char)
  | 0, cs => some cs
  | _ + 1, [] => none
  | n + 1, c :: cs => if c.utf8Size ≤ n + 1 then dropBytes? (n + 1 - c.utf8Size) cs else none

/-- The first `n` bytes of `cs`, if these end at a character. -/
def takeBytes? : Nat → List Char → Option (List Char)
  | 0, _ => some []
  | _ + 1, [] => none
  | n + 1, c :: cs =>
    if c.utf8Size ≤ n + 1 then (takeBytes? (n + 1 - c.utf8Size) cs).map (c :: ·) else none

/-- The text of a span, or no text when the span does not fit the text or cuts a character. -/
def slice (cs : List Char) (s : Span) : List Char :=
  if s.start ≤ s.stop then
    ((dropBytes? s.start cs).bind (takeBytes? s.length)).getD []
  else []

def encode (s : String) : Bytes := s.toList.flatMap String.utf8EncodeChar

def isTail (b : UInt8) : Bool := decide (0x80 ≤ b) && decide (b ≤ 0xBF)

/-- The number of bytes that follow the leading byte `b`, and what the first of them may be. A
    leading byte without an answer starts no character of more than one byte. -/
def tailAfter (b : UInt8) : Option (Nat × (UInt8 → Bool)) :=
  if 0xC2 ≤ b ∧ b ≤ 0xDF then some (1, isTail)
  else if b = 0xE0 then some (2, fun x => decide (0xA0 ≤ x) && decide (x ≤ 0xBF))
  else if b = 0xED then some (2, fun x => decide (0x80 ≤ x) && decide (x ≤ 0x9F))
  else if 0xE1 ≤ b ∧ b ≤ 0xEF then some (2, isTail)
  else if b = 0xF0 then some (3, fun x => decide (0x90 ≤ x) && decide (x ≤ 0xBF))
  else if b = 0xF4 then some (3, fun x => decide (0x80 ≤ x) && decide (x ≤ 0x8F))
  else if 0xF1 ≤ b ∧ b ≤ 0xF3 then some (3, isTail)
  else none

def leadBits (b : UInt8) (tail : Nat) : Nat :=
  b.toNat % (if tail = 1 then 32 else if tail = 2 then 16 else 8)

/-- Reads up to `n` more bytes of a character whose bits so far are `acc`. The answer is the
    character, or nothing when it breaks off, and the bytes that were not used. -/
def readTail : Nat → (UInt8 → Bool) → Nat → Bytes → Option Char × Bytes
  | 0, _, acc, bs => (some (Char.ofNat acc), bs)
  | _ + 1, _, _, [] => (none, [])
  | n + 1, ok, acc, b :: bs =>
    if ok b then readTail n isTail (acc * 64 + b.toNat % 64) bs else (none, b :: bs)

/-- The character at the front of some bytes, or nothing when they hold no whole character, and the
    bytes behind what was looked at. -/
def readChar (b : UInt8) (bs : Bytes) : Option Char × Bytes :=
  if b < 0x80 then (some (Char.ofNat b.toNat), bs)
  else match tailAfter b with
    | some (n, ok) => readTail n ok (leadBits b n) bs
    | none => (none, bs)

private theorem readTail_length (n : Nat) (ok : UInt8 → Bool) (acc : Nat) (bs : Bytes) :
    (readTail n ok acc bs).2.length ≤ bs.length := by
  fun_induction readTail n ok acc bs with
  | case1 => simp
  | case2 => simp
  | case3 n ok acc b bs h ih => simp only [List.length_cons]; omega
  | case4 => simp

private theorem readChar_length (b : UInt8) (bs : Bytes) :
    (readChar b bs).2.length ≤ bs.length := by
  unfold readChar
  split
  · simp
  · split
    · exact readTail_length ..
    · simp

/-- The characters of some bytes, with nothing where the bytes are no UTF-8: one gap for each
    longest run of bytes that starts a character. -/
def readChars : Bytes → List (Option Char)
  | [] => []
  | b :: bs =>
    have := readChar_length b bs
    (readChar b bs).1 :: readChars (readChar b bs).2
termination_by bs => bs.length
decreasing_by simp only [List.length_cons]; omega

/-- The text that `bs` spells, if all of it is UTF-8. -/
def decode? (bs : Bytes) : Option String := ((readChars bs).mapM id).map String.ofList

/-- The text that `bs` spells, with U+FFFD for what is no UTF-8. -/
def decodeLossy (bs : Bytes) : String :=
  String.ofList ((readChars bs).map (·.getD '\uFFFD'))

end PageProbe.Text
