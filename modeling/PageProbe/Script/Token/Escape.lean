import PageProbe.Script.Token

namespace PageProbe.Script

def hexDigit? (c : Char) : Option Nat :=
  if c.isDigit then some (c.toNat - '0'.toNat)
  else if 'a' ≤ c ∧ c ≤ 'f' then some (c.toNat - 'a'.toNat + 10)
  else if 'A' ≤ c ∧ c ≤ 'F' then some (c.toNat - 'A'.toNat + 10)
  else none

/-- The number that `n` hexadecimal digits spell. -/
def fixedHex : Nat → Nat → Cursor → Option (Nat × Cursor)
  | 0, acc, c => some (acc, c)
  | n + 1, acc, c => do
    let d ← c.rest.head?.bind hexDigit?
    fixedHex n (acc * 16 + d) c.next

def bracedHex (c : Cursor) : Option (Nat × Cursor) := do
  let (digits, c) := c.takeWhile (fun x => (hexDigit? x).isSome)
  if digits.isEmpty || c.rest.head? != some '\x7d' then none
  let value := digits.foldl (fun n x => min (n * 16 + (hexDigit? x).getD 0) 0x110000) 0
  if value < 0x110000 then some (value, c.next) else none

/-- The code point of an escape behind its `\u`: four digits, or any number of them in braces. -/
def unicodeEscape? (c : Cursor) : Option (Nat × Cursor) :=
  match c.rest with
  | '\x7b' :: _ => bracedHex c.next
  | _ => fixedHex 4 0 c

def octalDigit? (c : Char) : Option Nat :=
  if '0' ≤ c ∧ c ≤ '7' then some (c.toNat - '0'.toNat) else none

/-- An octal escape of up to three digits, below 256. -/
def octalEscape (first : Nat) (c : Cursor) : Nat × Cursor :=
  match c.rest.head?.bind octalDigit? with
  | none => (first, c)
  | some second =>
    let two := first * 8 + second
    let c := c.next
    match c.rest.head?.bind octalDigit? with
    | some third => if two * 8 + third < 256 then (two * 8 + third, c.next) else (two, c)
    | none => (two, c)

/-- The code points that an escape stands for, behind its backslash: none for a line end that is
    continued. Octal escapes are refused in templates. -/
def escape? (octals : Bool) (c : Cursor) : Option (List Nat × Cursor) :=
  match c.rest with
  | [] => none
  | 'n' :: _ => some ([10], c.next)
  | 't' :: _ => some ([9], c.next)
  | 'r' :: _ => some ([13], c.next)
  | 'b' :: _ => some ([8], c.next)
  | 'v' :: _ => some ([11], c.next)
  | 'f' :: _ => some ([12], c.next)
  | '\r' :: '\n' :: _ => some ([], c.next.next)
  | '\r' :: _ => some ([], c.next)
  | '\n' :: _ => some ([], c.next)
  | '\u2028' :: _ => some ([], c.next)
  | '\u2029' :: _ => some ([], c.next)
  | 'x' :: _ => (fixedHex 2 0 c.next).map fun (n, c) => ([n], c)
  | 'u' :: _ => (unicodeEscape? c.next).map fun (n, c) => ([n], c)
  | x :: _ =>
    match octalDigit? x with
    | some d =>
      let alone := d == 0 && !((c.next.rest.head?.map Char.isDigit).getD false)
      if octals || alone then
        let (n, c) := octalEscape d c.next
        some ([n], c)
      else none
    | none =>
      if !octals && (x == '8' || x == '9') then none else some ([x.toNat], c.next)

/-- The text that code points spell. Two halves of a surrogate pair make one character, and a half
    without its other half becomes U+FFFD. -/
def joinCodes : List Nat → List Char
  | [] => []
  | [n] => [if 0xD800 ≤ n ∧ n < 0xE000 then '\uFFFD' else Char.ofNat n]
  | n :: m :: rest =>
    if 0xD800 ≤ n ∧ n < 0xDC00 ∧ 0xDC00 ≤ m ∧ m < 0xE000 then
      Char.ofNat (0x10000 + (n - 0xD800) * 0x400 + (m - 0xDC00)) :: joinCodes rest
    else if 0xD800 ≤ n ∧ n < 0xE000 then '\uFFFD' :: joinCodes (m :: rest)
    else Char.ofNat n :: joinCodes (m :: rest)

end PageProbe.Script
