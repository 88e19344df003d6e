import PageProbe.Json.Value

/-!
A `Document` is a JSON text as it is written: members keep their order and their repetitions. What
the library writes is built as a document, and what it reads is decoded from one.
-/

namespace PageProbe.Json

inductive Document where
  | null
  | bool (value : Bool)
  | number (value : Number)
  | string (value : String)
  | array (items : List Document)
  | object (members : List (String × Document))
  /-- A well written literal that stands for no value: a number beyond the doubles, or a text with
      half of a surrogate pair. It can be passed over but not read. -/
  | unreadable
deriving Repr, Inhabited

namespace Document

def ofNat (n : Nat) : Document := .number (.integer n)

def strings (items : List String) : Document := .array (items.map .string)

/-- A member that is left out when there is no value for it. -/
def optional (name : String) (write : α → Document) : Option α → List (String × Document)
  | some a => [(name, write a)]
  | none => []

/-- A value that may be missing, as `null`. -/
def nullable (write : α → Document) : Option α → Document
  | some a => write a
  | none => .null

mutual
/-- The document that lists the members of every object in the order of their names. -/
def ofValue : Value → Document
  | .null => .null
  | .bool b => .bool b
  | .number n => .number n
  | .string s => .string s
  | .array items => .array (ofItems items)
  | .object members => .object (ofMembers members)

def ofItems : List Value → List Document
  | [] => []
  | v :: vs => ofValue v :: ofItems vs

def ofMembers : List (String × Value) → List (String × Document)
  | [] => []
  | (n, v) :: rest => (n, ofValue v) :: ofMembers rest
end

def values (items : List Value) : Document := .array (items.map ofValue)

mutual
/-- The value of a document in which at most `room` arrays and objects are nested. -/
def toValue? (room : Nat) : Document → Option Value
  | .null => some .null
  | .bool b => some (.bool b)
  | .number n => some (.number n)
  | .string s => some (.string s)
  | .array items => if room = 0 then none else (toItems? (room - 1) items).map .array
  | .object members =>
    if room = 0 then none else (toMembers? (room - 1) members).map Value.ofMembers
  | .unreadable => none

def toItems? (room : Nat) : List Document → Option (List Value)
  | [] => some []
  | d :: ds => do
    let v ← toValue? room d
    let vs ← toItems? room ds
    return v :: vs

def toMembers? (room : Nat) : List (String × Document) → Option (List (String × Value))
  | [] => some []
  | (n, d) :: rest => do
    let v ← toValue? room d
    let vs ← toMembers? room rest
    return (n, v) :: vs
end

mutual
/-- How deep the arrays and objects of a document are nested. -/
def height : Document → Nat
  | .array items => itemsHeight items + 1
  | .object members => membersHeight members + 1
  | _ => 0

def itemsHeight : List Document → Nat
  | [] => 0
  | d :: ds => max (height d) (itemsHeight ds)

def membersHeight : List (String × Document) → Nat
  | [] => 0
  | (_, d) :: rest => max (height d) (membersHeight rest)
end

end Document
end PageProbe.Json
