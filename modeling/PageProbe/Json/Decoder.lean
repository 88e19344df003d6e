import PageProbe.Json.Parser

/-!
A `Decoder` reads a value of one type from a document. It also counts how many levels of nesting it
may still open, since a text nested too deep is refused; what is passed over unread is not counted.

Records are decoded through `Record`: their fields come by name, or by position in an array.
-/

namespace PageProbe.Json

/-- Reads an `α` from a document in which at most the given number of levels may be opened. -/
abbrev Decoder (α : Type) := Nat → Document → Option α

/-- The number of levels that a text may nest. -/
def maxNesting : Nat := 127

/-- Decodes a whole text. -/
def Decoder.ofText (decode : Decoder α) (text : String) : Option α :=
  (parse text).bind (decode maxNesting)

/-- Decodes a document however deep it is. -/
def Decoder.unbounded (decode : Decoder α) (d : Document) : Option α := decode d.height d

namespace Decoder

def value : Decoder Value := fun room d => d.toValue? room

def string : Decoder String
  | _, .string s => some s
  | _, _ => none

def bool : Decoder Bool
  | _, .bool b => some b
  | _, _ => none

/-- A natural number below `limit`. -/
def natBelow (limit : Nat) : Decoder Nat
  | _, .number (.integer (.ofNat n)) => if n < limit then some n else none
  | _, _ => none

/-- A natural number of 64 bits. -/
def nat : Decoder Nat := natBelow (Nat.pow 2 64)

def array (item : Decoder α) : Decoder (List α)
  | room + 1, .array items => items.mapM (item room)
  | _, _ => none

def values : Decoder (List Value) := array value

/-- One of several named variants without contents. The name may also be the only member of an object
    whose value is `null`. -/
def variant (ofText? : String → Option α) : Decoder α
  | _, .string s => ofText? s
  | _ + 1, .object [(s, .null)] => ofText? s
  | _, _ => none

/-- `null` stands for no value. -/
def option (decode : Decoder α) : Decoder (Option α)
  | _, .null => some none
  | room, d => (decode room d).map some

end Decoder

/-- The field of a record: what stands for it, or that nothing does, by name or by position. -/
inductive Field where
  | present (room : Nat) (d : Document)
  | unnamed
  | beyond
deriving Inhabited

namespace Field

/-- A field that has to be there. -/
def required (decode : Decoder α) : Field → Option α
  | .present room d => decode room d
  | _ => none

/-- A field with a value that may be `null`. It may be left out of an object, though not of an
    array. -/
def nullable (decode : Decoder α) : Field → Option (Option α)
  | .present room d => Decoder.option decode room d
  | .unnamed => some none
  | .beyond => none

/-- A field that has a value of its own when it is left out. -/
def orElse (default : α) (decode : Decoder α) : Field → Option α
  | .present room d => decode room d
  | _ => some default

end Field

namespace Record

/-- The member of a name, unless there are several. -/
def pick (room : Nat) (members : List (String × Document)) (name : String) :
    Option Field :=
  match members.filter (fun m => m.1 == name) with
  | [] => some .unnamed
  | [m] => some (.present room m.2)
  | _ => none

def place (room : Nat) (items : List Document) (i : Nat) : Field :=
  match items[i]? with
  | some d => .present room d
  | none => .beyond

/-- The fields of a record in the order of `names`. Members of other names are passed over unless
    the record is `strict`; an array may not be longer than the names. -/
def fields (names : List String) (strict : Bool) : Decoder (List Field)
  | room + 1, .object members =>
    if strict && members.any (fun m => !names.contains m.1) then none
    else names.mapM (pick room members)
  | room + 1, .array items =>
    if items.length > names.length then none
    else some ((List.range names.length).map (place room items))
  | _, _ => none

end Record
end PageProbe.Json
