/-!
A command has rules for its options, and may take one path besides. Options are written `--name value`
or `--name=value`; behind `--` there are no options any more.
-/

namespace PageProbe.Command

/-- What the value of an option has to be. -/
inductive ValueKind where
  | text
  /-- A text that is not empty. -/
  | path
  /-- A natural number of 64 bits. -/
  | number
  | choice (values : List String)
deriving DecidableEq, Repr, Inhabited

structure OptionRule where
  name : String
  kind : ValueKind
  /-- It may be given several times. -/
  repeats : Bool
  /-- Its value may start with a dash. -/
  takesDashes : Bool
deriving DecidableEq, Repr, Inhabited

namespace OptionRule

def single (name : String) (kind : ValueKind) : OptionRule := ⟨name, kind, false, false⟩

def repeated (name : String) : OptionRule := ⟨name, .text, true, false⟩

end OptionRule

structure OptionRules where
  options : List OptionRule
  /-- The command takes a path. -/
  takesPath : Bool
deriving DecidableEq, Repr, Inhabited

/-- Why a command line leads to no command. -/
inductive Stop where
  /-- It asks for help, or for the version. -/
  | help
  /-- It makes no sense. -/
  | misuse
deriving DecidableEq, Repr, Inhabited

/-- A natural number of 64 bits in decimal; a plus sign may stand before it. -/
def number? (text : String) : Option Nat :=
  let ds := match text.toList with
    | '+' :: ds => ds
    | ds => ds
  if ds.isEmpty || !ds.all Char.isDigit then none
  else
    let n := ds.foldl (fun n c => n * 10 + (c.toNat - '0'.toNat)) 0
    if n < Nat.pow 2 64 then some n else none

def ValueKind.admits (kind : ValueKind) (text : String) : Bool :=
  match kind with
  | .text => true
  | .path => !text.isEmpty
  | .number => (number? text).isSome
  | .choice values => values.contains text

/-- What a command line gives to a command. -/
structure Given where
  /-- The options in the order in which they are given. -/
  options : List (String × String)
  path : Option String
  isVerbose : Bool
deriving DecidableEq, Repr, Inhabited

namespace Given

def nothing : Given := ⟨[], none, false⟩

def value? (g : Given) (name : String) : Option String := g.options.lookup name

def values (g : Given) (name : String) : List String :=
  (g.options.filter (·.1 == name)).map (·.2)

private def addOption (g : Given) (rule : OptionRule) (value : String) : Except Stop Given :=
  if !rule.repeats && (g.value? rule.name).isSome then .error .misuse
  else if rule.kind.admits value then
    .ok { g with options := g.options ++ [(rule.name, value)] }
  else .error .misuse

private def addPath (g : Given) (rules : OptionRules) (path : String) : Except Stop Given :=
  if rules.takesPath && g.path.isNone && !path.isEmpty then .ok { g with path := some path }
  else .error .misuse

private def addVerbose (g : Given) : Except Stop Given :=
  if g.isVerbose then .error .misuse else .ok { g with isVerbose := true }

/-- Takes the letters behind a single dash. -/
private def addLetters (g : Given) : List Char → Except Stop Given
  | [] => .ok g
  | 'v' :: cs => g.addVerbose.bind fun g => addLetters g cs
  | 'h' :: _ => .error .help
  | _ => .error .misuse

end Given

/-- How an argument is meant, outside of the values of options. -/
inductive Argument where
  /-- Behind this there are only paths. -/
  | lastDashes
  /-- An option by its name, with a value that is written in the same argument. -/
  | long (name : String) (value : Option String)
  | letters (cs : List Char)
  | plain (text : String)
deriving DecidableEq, Repr, Inhabited

namespace Argument

def ofText (text : String) : Argument :=
  match text.toList with
  | ['-', '-'] => .lastDashes
  | '-' :: '-' :: cs =>
    .long (String.ofList (cs.takeWhile (· != '=')))
      (match cs.dropWhile (· != '=') with
        | [] => none
        | _ :: value => some (String.ofList value))
  | '-' :: c :: cs => .letters (c :: cs)
  | _ => .plain text

/-- Whether an argument can be the value of the option in front of it. -/
def isValue (rule : OptionRule) (text : String) : Bool :=
  rule.takesDashes || match ofText text with
    | .plain _ => true
    | _ => false

end Argument

namespace Given

/-- Takes arguments one after another. -/
def take (rules : OptionRules) (g : Given) : List String → Except Stop Given
  | [] => .ok g
  | arg :: rest =>
    match Argument.ofText arg with
    | .plain path => (g.addPath rules path).bind fun g => take rules g rest
    | .lastDashes => rest.foldlM (fun g path => addPath g rules path) g
    | .letters cs => (g.addLetters cs).bind fun g => take rules g rest
    | .long "help" none => .error .help
    | .long "verbose" none => g.addVerbose.bind fun g => take rules g rest
    | .long name value =>
      match rules.options.find? (·.name == name), value, rest with
      | none, _, _ => .error .misuse
      | some rule, some value, rest => (g.addOption rule value).bind fun g => take rules g rest
      | some _, none, [] => .error .misuse
      | some rule, none, value :: rest =>
        if Argument.isValue rule value then
          (g.addOption rule value).bind fun g => take rules g rest
        else .error .misuse

end Given
end PageProbe.Command
