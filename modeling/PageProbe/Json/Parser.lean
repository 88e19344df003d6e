import PageProbe.Json.Document

namespace PageProbe.Json
namespace Parser

def isBlank (c : Char) : Bool := c == ' ' || c == '\n' || c == '\t' || c == '\r'

def skipBlanks (cs : List Char) : List Char := cs.dropWhile isBlank

def hexDigit? (c : Char) : Option Nat :=
  if c.isDigit then some (c.toNat - '0'.toNat)
  else if 'a' ≤ c ∧ c ≤ 'f' then some (c.toNat - 'a'.toNat + 10)
  else if 'A' ≤ c ∧ c ≤ 'F' then some (c.toNat - 'A'.toNat + 10)
  else none

def hexUnit? (a b c d : Char) : Option Nat := do
  return (((← hexDigit? a) * 16 + (← hexDigit? b)) * 16 + (← hexDigit? c)) * 16 + (← hexDigit? d)

/-- A piece of a quoted text: a character, or half of a surrogate pair. -/
inductive Unit16 where
  | char (c : Char)
  | high (n : Nat)
  | low (n : Nat)

def Unit16.ofNat (n : Nat) : Unit16 :=
  if 0xD800 ≤ n ∧ n < 0xDC00 then .high (n - 0xD800)
  else if 0xDC00 ≤ n ∧ n < 0xE000 then .low (n - 0xDC00)
  else .char (Char.ofNat n)

def simpleEscape? : Char → Option Char
  | '"' => some '"'
  | '\\' => some '\\'
  | '/' => some '/'
  | 'b' => some '\x08'
  | 'f' => some '\x0c'
  | 'n' => some '\n'
  | 'r' => some '\r'
  | 't' => some '\t'
  | _ => none

/-- The pieces of a quoted text behind its opening quote, and what follows its closing quote. -/
def units : List Char → Option (List Unit16 × List Char)
  | [] => none
  | '"' :: rest => some ([], rest)
  | '\\' :: 'u' :: a :: b :: c :: d :: rest => do
    let n ← hexUnit? a b c d
    let (us, rest) ← units rest
    return (Unit16.ofNat n :: us, rest)
  | '\\' :: e :: rest => do
    let c ← simpleEscape? e
    let (us, rest) ← units rest
    return (.char c :: us, rest)
  | c :: rest =>
    if c.toNat < 0x20 then none else do
      let (us, rest) ← units rest
      return (.char c :: us, rest)

/-- The text that some pieces spell, if every half of a pair stands before or behind its other
    half. -/
def joinUnits : List Unit16 → Option (List Char)
  | [] => some []
  | .char c :: rest => (joinUnits rest).map (c :: ·)
  | .high h :: .low l :: rest =>
    (joinUnits rest).map (Char.ofNat (0x10000 + h * 0x400 + l) :: ·)
  | _ => none

/-- A quoted text behind its opening quote. -/
def text (cs : List Char) : Option (Option String × List Char) := do
  let (us, rest) ← units cs
  return ((joinUnits us).map String.ofList, rest)

/-- `digits · 10^exponent` as doubles are read from JSON: the digits are rounded first and then
    scaled by powers of ten, each step with its own rounding. -/
def scaled : Nat → Double → Int → Option Double
  | 0, x, _ => some x
  | fuel + 1, x, exponent =>
    if exponent.natAbs ≤ Double.maxTen then
      let pow := Double.ofDecimal 1 exponent.natAbs
      if exponent ≥ 0 then
        let y := x.mul pow
        if y.isInfinite then none else some y
      else some (x.div pow)
    else if x.isZero then some x
    else if exponent ≥ 0 then none
    else scaled fuel (x.div (Double.ofDecimal 1 Double.maxTen)) (exponent + Double.maxTen)

/-- The leading digits that 64 bits hold, how many digits they are, and the other digits. -/
def significand : Nat → Nat → List Char → Nat × Nat × List Char
  | acc, count, [] => (acc, count, [])
  | acc, count, c :: cs =>
    let next := acc * 10 + (c.toNat - '0'.toNat)
    if next < Nat.pow 2 64 then significand next (count + 1) cs else (acc, count, c :: cs)

/-- Exponents from here on are not computed with: they make a number zero or too large. -/
def exponentLimit : Nat := Nat.pow 2 31

/-- The number that is written by its sign, its digits before and behind the point, and its
    exponent. -/
def numberOf (negative : Bool) (whole : List Char) (fraction : Option (List Char))
    (exponent : Option (Bool × List Char)) : Option Number :=
  let (head, _, cut) := significand 0 0 whole
  let sign (x : Double) : Double := if negative then x.negate else x
  if fraction.isNone && exponent.isNone && cut.isEmpty then
    if !negative then some (.integer head)
    else if head = 0 ∨ head > Nat.pow 2 63 then some (.double (sign (Double.ofNat head)))
    else some (.integer (-head))
  else
    let (digits, used, _) := significand head 0 (fraction.getD [])
    let start : Int := (cut.length : Int) - used
    let scaledBy (e : Int) := (scaled 4 (Double.ofNat digits) e).map fun x => .double (sign x)
    match exponent with
    | none => scaledBy start
    | some (down, ds) =>
      let e := ds.foldl (fun n c => min (n * 10 + (c.toNat - '0'.toNat)) exponentLimit) 0
      if e ≥ exponentLimit then
        if digits ≠ 0 ∧ !down then none else some (.double (sign (Double.ofNat 0)))
      else scaledBy (if down then start - e else start + e)

/-- Whether a number starts with a sign, and what follows it. -/
def signed : List Char → Bool × List Char
  | '-' :: rest => (true, rest)
  | cs => (false, cs)

/-- The digits behind a point, if there is a point, and what follows them. -/
def fraction? : List Char → Option (Option (List Char) × List Char)
  | '.' :: rest =>
    let ds := rest.takeWhile Char.isDigit
    if ds.isEmpty then none else some (some ds, rest.dropWhile Char.isDigit)
  | cs => some (none, cs)

/-- The sign and the digits of an exponent, if there is one, and what follows them. -/
def exponent? : List Char → Option (Option (Bool × List Char) × List Char)
  | 'e' :: rest | 'E' :: rest =>
    let (down, rest) := match rest with
      | '-' :: r => (true, r)
      | '+' :: r => (false, r)
      | _ => (false, rest)
    let ds := rest.takeWhile Char.isDigit
    if ds.isEmpty then none else some (some (down, ds), rest.dropWhile Char.isDigit)
  | cs => some (none, cs)

/-- A number: its literal must be well formed, its value may be out of reach. -/
def number (cs : List Char) : Option (Document × List Char) :=
  let (negative, cs) := signed cs
  let whole := cs.takeWhile Char.isDigit
  if whole.isEmpty || (whole.head? == some '0' && whole.length > 1) then none
  else do
    let (fraction, cs) ← fraction? (cs.dropWhile Char.isDigit)
    let (exponent, cs) ← exponent? cs
    return match numberOf negative whole fraction exponent with
      | some n => (.number n, cs)
      | none => (.unreadable, cs)

mutual
/-- A value and what follows it. Every nested value spends one unit of fuel, and so does every
    item. -/
def value : Nat → List Char → Option (Document × List Char)
  | 0, _ => none
  | fuel + 1, cs =>
    match skipBlanks cs with
    | 'n' :: 'u' :: 'l' :: 'l' :: rest => some (.null, rest)
    | 't' :: 'r' :: 'u' :: 'e' :: rest => some (.bool true, rest)
    | 'f' :: 'a' :: 'l' :: 's' :: 'e' :: rest => some (.bool false, rest)
    | '"' :: rest => do
      let (s, rest) ← text rest
      return match s with
        | some s => (.string s, rest)
        | none => (.unreadable, rest)
    | '[' :: rest =>
      match skipBlanks rest with
      | ']' :: rest => some (.array [], rest)
      | _ => (items fuel rest).map fun (ds, r) => (.array ds, r)
    | '\x7b' :: rest =>
      match skipBlanks rest with
      | '\x7d' :: rest => some (.object [], rest)
      | _ => (members fuel rest).map fun (ms, r) => (.object ms, r)
    | cs => number cs

/-- The items of an array up to its closing bracket; there is at least one. -/
def items : Nat → List Char → Option (List Document × List Char)
  | 0, _ => none
  | fuel + 1, cs => do
    let (d, rest) ← value fuel cs
    match skipBlanks rest with
    | ']' :: rest => return ([d], rest)
    | ',' :: rest =>
      let (ds, rest) ← items fuel rest
      return (d :: ds, rest)
    | _ => none

/-- The members of an object up to its closing brace; there is at least one. -/
def members : Nat → List Char → Option (List (String × Document) × List Char)
  | 0, _ => none
  | fuel + 1, cs =>
    match skipBlanks cs with
    | '"' :: rest => do
      let (name, rest) ← text rest
      let name ← name
      match skipBlanks rest with
      | ':' :: rest =>
        let (d, rest) ← value fuel rest
        match skipBlanks rest with
        | '\x7d' :: rest => return ([(name, d)], rest)
        | ',' :: rest =>
          let (ms, rest) ← members fuel rest
          return ((name, d) :: ms, rest)
        | _ => none
      | _ => none
    | _ => none
end

end Parser

/-- The document that a text spells, blanks around it left out. -/
def parse (s : String) : Option Document := do
  let cs := s.toList
  let (d, rest) ← Parser.value (2 * cs.length + 2) cs
  if (Parser.skipBlanks rest).isEmpty then some d else none

end PageProbe.Json
