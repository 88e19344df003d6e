import PageProbe.Script.Token.Escape
import PageProbe.Text.Identifier

namespace PageProbe.Script

/-- Digits of a radix with separators between them. -/
def digits (radix : Nat) (c : Cursor) : List Nat × Cursor :=
  let digit? (x : Char) : Option Nat := (hexDigit? x).filter (· < radix)
  let (taken, c) := c.takeWhile (fun x => (digit? x).isSome || x == '_')
  (taken.filterMap digit?, c)

def valueOf (radix : Nat) (ds : List Nat) : Nat := ds.foldl (fun n d => n * radix + d) 0

/-- A number may not run into a name or another digit. -/
def closed (t : Token) (c : Cursor) : Token × Cursor :=
  match c.rest with
  | x :: _ =>
    if x.isDigit || x == '\\' || Text.startsIdentifier x then (.bad, c) else (t, c)
  | [] => (t, c)

def withRadix (radix : Nat) (c : Cursor) : Token × Cursor :=
  let (ds, c) := digits radix c
  if ds.isEmpty then (.bad, c)
  else if c.rest.head? == some 'n' then closed .bigint c.next
  else closed (.number (Double.ofNat (valueOf radix ds))) c

/-- The exponent of a decimal, if there is one; `none` when its digits are missing. -/
def exponent? (c : Cursor) : Option (Option Int × Cursor) :=
  match c.rest with
  | x :: _ =>
    if x == 'e' || x == 'E' then
      let c := c.next
      let (down, c) := match c.rest with
        | '-' :: _ => (true, c.next)
        | '+' :: _ => (false, c.next)
        | _ => (false, c)
      let (ds, c) := digits 10 c
      if ds.isEmpty then none
      else
        let size : Nat := ds.foldl (fun n d => min (n * 10 + d) 1000000) 0
        some (some (if down then -(size : Int) else size), c)
    else some (none, c)
  | [] => some (none, c)

/-- A decimal behind its whole part. -/
def decimalFrom (whole : List Nat) (mayBeBig : Bool) (c : Cursor) : Token × Cursor :=
  if mayBeBig && c.rest.head? == some 'n' then closed .bigint c.next
  else
    let (fraction, c) :=
      if c.rest.head? == some '.' then digits 10 c.next else ([], c)
    match exponent? c with
    | none => (.bad, c)
    | some (e, c) =>
      let scale : Int := e.getD 0 - fraction.length
      closed (.number (Double.ofDecimal (valueOf 10 (whole ++ fraction)) scale)) c

/-- A number at the cursor, which stands at a digit or at a point before a digit. -/
def readNumber (c : Cursor) : Token × Cursor :=
  match c.rest with
  | '0' :: x :: _ =>
    if x == 'x' || x == 'X' then withRadix 16 c.next.next
    else if x == 'o' || x == 'O' then withRadix 8 c.next.next
    else if x == 'b' || x == 'B' then withRadix 2 c.next.next
    else if x.isDigit || x == '_' then
      let (ds, after) := digits 10 c
      if ds.all (· < 8) then
        if after.rest.head? == some 'n' then closed .bigint after.next
        else closed (.number (Double.ofNat (valueOf 8 ds))) after
      else decimalFrom ds true after
    else decimalFrom [0] true c.next
  | '.' :: _ => decimalFrom [] false c
  | _ =>
    let (ds, c) := digits 10 c
    decimalFrom ds true c

end PageProbe.Script
