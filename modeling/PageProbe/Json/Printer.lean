import PageProbe.Json.Document
import PageProbe.Number.Notation

namespace PageProbe.Json

/-- A character inside a quoted text. Only what has to be escaped is escaped. -/
def escapeChar (c : Char) : List Char :=
  if c = '"' then ['\\', '"']
  else if c = '\\' then ['\\', '\\']
  else if c = '\n' then ['\\', 'n']
  else if c = '\r' then ['\\', 'r']
  else if c = '\t' then ['\\', 't']
  else if c = '\x08' then ['\\', 'b']
  else if c = '\x0c' then ['\\', 'f']
  else if c.toNat < 0x20 then
    ['\\', 'u', '0', '0', Nat.digitChar (c.toNat / 16), Nat.digitChar (c.toNat % 16)]
  else [c]

def quote (s : String) : String :=
  String.ofList ('"' :: s.toList.flatMap escapeChar ++ ['"'])

def Number.write : Number → String
  | .integer i => PageProbe.Number.integer i
  | .double x => PageProbe.Number.json x

namespace Document

mutual
/-- One line without blanks. -/
def compact : Document → String
  | .null => "null"
  | .bool b => if b then "true" else "false"
  | .number n => n.write
  | .string s => quote s
  | .array items => "[" ++ compactItems true items ++ "]"
  | .object members => "\x7b" ++ compactMembers true members ++ "\x7d"
  | .unreadable => "null"

def compactItems (first : Bool) : List Document → String
  | [] => ""
  | d :: ds => (if first then "" else ",") ++ compact d ++ compactItems false ds

def compactMembers (first : Bool) : List (String × Document) → String
  | [] => ""
  | (n, d) :: rest =>
    (if first then "" else ",") ++ quote n ++ ":" ++ compact d ++ compactMembers false rest
end

/-- A new line at a depth of nesting, two blanks for each level. -/
def newline (depth : Nat) : String := String.ofList ('\n' :: List.replicate (2 * depth) ' ')

mutual
/-- One item a line; what is empty stays on its line. -/
def prettyAt (depth : Nat) : Document → String
  | .array [] => "[]"
  | .object [] => "\x7b\x7d"
  | .array items => "[" ++ prettyItems (depth + 1) true items ++ newline depth ++ "]"
  | .object members =>
    "\x7b" ++ prettyMembers (depth + 1) true members ++ newline depth ++ "\x7d"
  | .null => "null"
  | .bool b => if b then "true" else "false"
  | .number n => n.write
  | .string s => quote s
  | .unreadable => "null"

def prettyItems (depth : Nat) (first : Bool) : List Document → String
  | [] => ""
  | d :: ds =>
    (if first then "" else ",") ++ newline depth ++ prettyAt depth d ++ prettyItems depth false ds

def prettyMembers (depth : Nat) (first : Bool) : List (String × Document) → String
  | [] => ""
  | (n, d) :: rest =>
    (if first then "" else ",") ++ newline depth ++ quote n ++ ": " ++ prettyAt depth d ++
      prettyMembers depth false rest
end

def pretty (d : Document) : String := prettyAt 0 d

end Document

def Value.compact (v : Value) : String := (Document.ofValue v).compact

end PageProbe.Json
