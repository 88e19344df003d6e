import PageProbe.Number.Double

/-!
A `Value` is what a JSON text means: the members of an object are sorted and no name occurs twice,
and a number is either an integer of 64 bits or a double. `1` and `1.0` are different values.
-/

namespace PageProbe.Json

/-- A number of a JSON text: an integer from `-2^63` up to, and without, `2^64`, or a finite
    double. -/
inductive Number where
  | integer (value : Int)
  | double (value : Double)
deriving DecidableEq, Repr, Inhabited

namespace Number

/-- An integer never equals a double, and the two zeros among the doubles are equal. -/
def same : Number → Number → Bool
  | .integer a, .integer b => a == b
  | .double a, .double b => a.same b
  | _, _ => false

end Number

inductive Value where
  | null
  | bool (value : Bool)
  | number (value : Number)
  | string (value : String)
  | array (items : List Value)
  | object (members : List (String × Value))
deriving Repr, Inhabited

namespace Value

def ofNat (n : Nat) : Value := .number (.integer n)

/-- The members with one more: a member of the same name is replaced, and the names stay sorted. -/
def insertMember (name : String) (value : Value) :
    List (String × Value) → List (String × Value)
  | [] => [(name, value)]
  | (n, v) :: rest =>
    if name = n then (name, value) :: rest
    else if name < n then (name, value) :: (n, v) :: rest
    else (n, v) :: insertMember name value rest

/-- An object from members in any order; of two members with one name the later counts. -/
def ofMembers (members : List (String × Value)) : Value :=
  .object (members.foldl (fun sorted m => insertMember m.1 m.2 sorted) [])

mutual
/-- Equality of values, with equal zeros. -/
def same : Value → Value → Bool
  | .null, .null => true
  | .bool a, .bool b => a == b
  | .number a, .number b => a.same b
  | .string a, .string b => a == b
  | .array as, .array bs => sameItems as bs
  | .object as, .object bs => sameMembers as bs
  | _, _ => false

def sameItems : List Value → List Value → Bool
  | [], [] => true
  | a :: as, b :: bs => same a b && sameItems as bs
  | _, _ => false

def sameMembers : List (String × Value) → List (String × Value) → Bool
  | [], [] => true
  | (m, a) :: as, (n, b) :: bs => m == n && same a b && sameMembers as bs
  | _, _ => false
end

/-- The member of a name, if the value is an object that has one. -/
def member? (name : String) : Value → Option Value
  | .object members => members.lookup name
  | _ => none

end Value
end PageProbe.Json
