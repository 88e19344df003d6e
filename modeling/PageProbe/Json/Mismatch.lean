import PageProbe.Json.Value
import PageProbe.Number.Notation
import PageProbe.Text.Quoted

/-!
A `Form` is asked for the first thing in a value that does not fit it. Members of an object are looked
at in their order, and what is missing counts only when nothing else is wrong.
-/

namespace PageProbe.Json

/-- What is wrong about a value. -/
inductive Mismatch where
  /-- A value of another kind than the one expected. -/
  | kind (found expected : String)
  /-- A value of the right kind that is out of bounds. -/
  | bounds (found expected : String)
  | unknownField (name : String) (known : List String)
  | missingField (name : String)
  | length (found : Nat) (expected : String)
deriving DecidableEq, Repr, Inhabited

/-- What a value is, for a reader who wants to find it. -/
def Value.described : Value → String
  | .null => "null"
  | .bool b => "boolean `" ++ (if b then "true" else "false") ++ "`"
  | .number (.integer i) => "integer `" ++ PageProbe.Number.integer i ++ "`"
  | .number (.double x) => "floating point `" ++ PageProbe.Number.json x ++ "`"
  | .string s => "string " ++ Text.quoted s
  | .array _ => "sequence"
  | .object _ => "map"

namespace Mismatch

private def alternatives (names : List String) : String :=
  match names.map fun n => "`" ++ n ++ "`" with
  | [] => "no field"
  | [a] => a
  | [a, b] => a ++ " or " ++ b
  | many => "one of " ++ String.intercalate ", " many

def message : Mismatch → String
  | kind found expected => "invalid type: " ++ found ++ ", expected " ++ expected
  | bounds found expected => "invalid value: " ++ found ++ ", expected " ++ expected
  | unknownField name known => "unknown field `" ++ name ++ "`, expected " ++ alternatives known
  | missingField name => "missing field `" ++ name ++ "`"
  | length found expected =>
    "invalid length " ++ PageProbe.Number.natural found ++ ", expected " ++ expected

end Mismatch

/-- Finds the first thing in a value that does not fit. -/
abbrev Form := Value → Option Mismatch

namespace Form

def string : Form
  | .string _ => none
  | v => some (.kind v.described "a string")

def bool : Form
  | .bool _ => none
  | v => some (.kind v.described "a boolean")

/-- A natural number of 64 bits, under the name of what it is expected to be. -/
def natural (expected : String) : Form
  | .number (.integer (.ofNat _)) => none
  | .number (.integer i) => some (.bounds (Value.number (.integer i)).described expected)
  | v => some (.kind v.described expected)

def array (item : Form) : Form
  | .array items => items.findSome? item
  | v => some (.kind v.described "a sequence")

/-- `null` stands for no value. -/
def option (form : Form) : Form
  | .null => none
  | v => form v

/-- A field of a record. -/
structure Field where
  name : String
  required : Bool
  form : Form

/-- The first mismatch of the members of an object. -/
private def ofMembers (fields : List Field) (members : List (String × Value)) : Option Mismatch :=
  (members.findSome? fun (name, v) =>
    match fields.find? (·.name == name) with
    | none => some (.unknownField name (fields.map (·.name)))
    | some field => field.form v).or
  ((fields.find? fun field => field.required && (members.lookup field.name).isNone).map
    fun field => .missingField field.name)

/-- The first mismatch of the items of an array that stand for fields. -/
private def ofItems (whole : String) (i : Nat) : List Field → List Value → Option Mismatch
  | [], [] => none
  | [], rest => some (.length (i + rest.length) "fewer elements in array")
  | field :: fields, v :: rest => (field.form v).or (ofItems whole (i + 1) fields rest)
  | field :: fields, [] =>
    if field.required then some (.length i whole) else ofItems whole (i + 1) fields []

/-- A record of a name, with its fields by name or by position. -/
def record (name : String) (fields : List Field) : Form
  | .object members => ofMembers fields members
  | .array items =>
    ofItems ("struct " ++ name ++ " with " ++ PageProbe.Number.natural fields.length ++ " elements")
      0 fields items
  | v => some (.kind v.described ("struct " ++ name))

end Form
end PageProbe.Json
