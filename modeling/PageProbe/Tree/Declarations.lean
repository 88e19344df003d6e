import PageProbe.Script.Parser
import PageProbe.Text.Lines
import PageProbe.Tree.Diagnostic

/-!
Indexed are function declarations; functions that are the value of a declared name or of assignments
to names and members; and the functions of an object whose own name is known because the object is
bound to a name or handed to `extend`. Functions without a name that are arguments of a call are
indexed on demand. An object with functions whose name is not known is reported.
-/

namespace PageProbe

open Script

/-- Why a script cannot be indexed. -/
inductive IndexError where
  /-- A call to `extend` hands over an object with functions, but neither one nor two arguments. -/
  | extendArity (line count : Nat)
deriving DecidableEq, Repr, Inhabited

/-- What is known about a script while its tree is walked. -/
structure Scope where
  file : String
  source : List Char
  /-- Whether functions without a name are indexed as well. -/
  withAnonymous : Bool
  /-- The path of the leaf around. -/
  path : String
  /-- The end of the innermost statement around. -/
  statementEnd : Option Nat

/-- What is counted and reported along the way. -/
structure Tally where
  anonymous : Nat
  diagnostics : List Diagnostic
deriving Repr, Inhabited

abbrev Indexer := StateT Tally (Except IndexError)

namespace Scope

def text (s : Scope) (r : Span) : String := String.ofList (Text.slice s.source r)

/-- The text of a parameter: the name, or the source of a pattern. -/
def param (s : Scope) : Node → String
  | .name _ text => text
  | n => s.text n.span

/-- The end of the statement around, or the given end where there is none. -/
def endOr (s : Scope) (stop : Nat) : Nat := s.statementEnd.getD stop

def report (s : Scope) (kind : DiagnosticKind) (severity : Severity) (range : Span)
    (message : String) : Indexer Unit :=
  modify fun t =>
    { t with diagnostics := t.diagnostics ++
        [⟨s.file, severity, kind, message, range, Text.lineAt s.source range.start⟩] }

end Scope

/-- An object whose name is known: the name, the keys of the objects around, and the end of the
    statement that binds it. -/
structure Root where
  name : String
  keys : List String
  stop : Nat

def Root.holder (r : Root) : String := String.intercalate "." (r.name :: r.keys)

/-- How a function or an object is bound. -/
inductive Bound where
  /-- By a declaration of its own. -/
  | declared (name : String)
  /-- As the value of one name or of several, in a statement that ends at `stop`. -/
  | value (name : String) (aliases : List String) (stop : Nat)
  /-- As a member of an object. -/
  | member (root : Root) (key : String)
  /-- As an argument without a name, in a statement that ends at `stop`. -/
  | anonymous (index stop : Nat)

def Bound.names : Bound → List String
  | .declared name => [name]
  | .value name aliases _ => name :: aliases
  | .member root key => [root.holder ++ "." ++ key]
  | .anonymous index _ => [anonymousPrefix ++ Number.natural index]

/-- What names the members of an object that is bound: the first of its names, or the object around
    it. -/
def Bound.root? : Bound → Option Root
  | .value name _ stop => some ⟨name, [], stop⟩
  | .member root key => some { root with keys := root.keys ++ [key] }
  | _ => none

/-- The leaf of a function without its children. -/
def Scope.leaf (s : Scope) (bound : Bound) (range : Span) (params : List Node) : Leaf :=
  let leaf : Leaf :=
    { Leaf.new "" range with
      paths := bound.names.map (Path.child s.path), args := params.map s.param }
  match bound with
  | .declared _ => leaf
  | .value _ _ stop => { leaf with declarationEnd := some stop }
  | .member root _ => { leaf with fromObject := some ⟨root.holder, root.stop⟩ }
  | .anonymous _ stop => { leaf with anonymousEnd := some stop, functionSource := [s.text range] }

/-- The leaf of a function with what is declared inside of it as its children. -/
def Scope.enclose (s : Scope) (bound : Bound) (range : Span) (params : List Node)
    (inside : Scope → Indexer (List Leaf)) : Indexer (List Leaf) := do
  let leaf := s.leaf bound range params
  let children ← inside { s with path := leaf.path }
  return [{ leaf with children := children }]

/-- The number of the next function without a name. -/
def nextAnonymous : Indexer Nat := do
  let t ← get
  set { t with anonymous := t.anonymous + 1 }
  return t.anonymous

namespace Script.Node

/-- The names that a chain of assignments binds, outermost first, if each of its targets has one. -/
def boundNames? : Node → Option (List String)
  | .paren _ inner => inner.boundNames?
  | .assign _ true target value => do
    let name ← target.targetName?
    let more ← value.boundNames?
    return name :: more
  | _ => some []

/-- What a chain of assignments assigns in the end. -/
def boundValue : Node → Node
  | .paren _ inner => inner.boundValue
  | .assign _ true _ value => value.boundValue
  | n => n

def isObject : Node → Bool
  | .object .. => true
  | _ => false

/-- An argument without its spread mark and its parentheses. -/
def bareArgument : Node → Node
  | .spread _ inner => inner.unparen
  | n => n.unparen

mutual
/-- Whether an object has a function among its members, at any depth. -/
def hasFunctions : Node → Bool
  | .paren _ inner => inner.hasFunctions
  | .object _ members => membersHaveFunctions members
  | _ => false

def membersHaveFunctions : List Node → Bool
  | [] => false
  | .property _ _ _ value :: rest =>
    value.isFunction || hasFunctions value || membersHaveFunctions rest
  | .method .. :: _ => true
  | _ :: rest => membersHaveFunctions rest
end

end Script.Node

/-- What a call to `extend` does. -/
inductive Extend where
  /-- It is no such call, or the object that it extends has no name. -/
  | none
  | root (name : String)
  | arity (count : Nat)

/-- A call extends an object when it calls a member `extend` with an object that has functions. With
    one argument it extends the object whose member it is, with two its first argument. -/
def extendOf (callee : Node) (args : List Node) : Extend :=
  match callee.unparen with
  | .member _ holder (some "extend") _ =>
    if args.any fun a => a.bareArgument.hasFunctions then
      match args with
      | [_] => (holder.chainName?.map .root).getD .none
      | [first, _] => (first.bareArgument.chainName?.map .root).getD .none
      | _ => .arity args.length
    else .none
  | _ => .none

/-- The function of an argument that has no name of its own. -/
def isAnonymousFunction (arg : Node) : Bool :=
  match arg.bareArgument with
  | .function _ named _ _ => !named
  | .arrow .. => true
  | _ => false

/-- The member of an object that is reported when the object has no name: the span and the key of a
    function. -/
def reportedMember? : Node → Option (Span × Option String)
  | .property s key _ value => if value.isFunction then some (s, key) else none
  | .method s keyStart key _ _ => some (⟨keyStart, s.stop⟩, key)
  | _ => none

def reportMembers (s : Scope) : List Node → Indexer Unit
  | [] => pure ()
  | m :: rest => do
    match reportedMember? m with
    | some (range, key) =>
      s.report .unresolvedObjectRoot .error range
        ("object root not found for function property \x60" ++ key.getD "<computed>" ++ "\x60")
    | none => pure ()
    reportMembers s rest

mutual
/-- The leaves that a node declares. -/
def declared (s : Scope) : Node → Indexer (List Leaf)
  | .paren _ inner => declared s inner
  | .member _ holder _ parts => return (← declared s holder) ++ (← declaredAll s parts)
  | .call span callee args =>
    match extendOf callee args with
    | .arity count => throw (.extendArity (Text.lineAt s.source span.start) count)
    | .root name =>
      return (← declared s callee) ++
        (← declaredExtensions s (.value name [] (s.endOr span.stop)) args)
    | .none => do
      let found ← declared s callee
      if s.withAnonymous then return found ++ (← declaredArguments s (s.endOr span.stop) args)
      else return found ++ (← declaredAll s args)
  | .assign span isPlain target value => do
    match isPlain, target.targetName?, value.boundNames? with
    | true, some name, some aliases =>
      if value.boundValue.isFunction || value.boundValue.isObject then
        declaredAs s (.value name aliases (s.endOr span.stop)) value
      else return (← declared s target) ++ (← declared s value)
    | _, _, _ =>
      if isPlain && value.isFunction then
        s.report .unsupportedAssignmentTarget .warning span
          "function assigned to a target without a static name"
      return (← declared s target) ++ (← declared s value)
  | .object _ members => do
    reportMembers s members
    declaredAll s members
  | .property _ _ keyParts value => return (← declaredAll s keyParts) ++ (← declared s value)
  | .method _ _ _ keyParts f => return (← declaredAll s keyParts) ++ (← declared s f)
  | .spread _ inner => declared s inner
  | .function _ _ params body => return (← declaredAll s params) ++ (← declaredAll s body)
  | .arrow _ params body => return (← declaredAll s params) ++ (← declaredAll s body)
  | .functionDecl _ name f => declaredAs s (.declared name) f
  | .varDecl span declarators => declaredNames s span.stop declarators
  | .declarator _ bound init => return (← declared s bound) ++ (← declaredOption s init)
  | .statement span parts => declaredAll { s with statementEnd := some span.stop } parts
  | .plain _ _ parts => declaredAll s parts
  | _ => return []

def declaredAll (s : Scope) : List Node → Indexer (List Leaf)
  | [] => return []
  | n :: rest => return (← declared s n) ++ (← declaredAll s rest)

def declaredOption (s : Scope) : Option Node → Indexer (List Leaf)
  | none => return []
  | some n => declared s n

/-- The leaves of a function or an object that is bound, in parentheses, behind a spread mark or
    behind further assignments. -/
def declaredAs (s : Scope) (bound : Bound) : Node → Indexer (List Leaf)
  | .paren _ inner => declaredAs s bound inner
  | .spread _ inner => declaredAs s bound inner
  | .assign _ _ _ value => declaredAs s bound value
  | .function span _ params body =>
    s.enclose bound span params fun inner =>
      return (← declaredAll inner params) ++ (← declaredAll inner body)
  | .arrow span params body =>
    s.enclose bound span params fun inner =>
      return (← declaredAll inner params) ++ (← declaredAll inner body)
  | .object _ members =>
    match bound.root? with
    | some root => declaredMembers s root members
    | none => return []
  | _ => return []

/-- What a declaration of names declares; `stop` is its end. -/
def declaredNames (s : Scope) (stop : Nat) : List Node → Indexer (List Leaf)
  | [] => return []
  | .declarator _ (.name _ name) (some value) :: rest => do
    let found ←
      if value.isFunction || value.unparen.isObject then
        declaredAs s (.value name [] stop) value
      else declared s value
    return found ++ (← declaredNames s stop rest)
  | n :: rest => return (← declared s n) ++ (← declaredNames s stop rest)

/-- What the members of an object declare whose name is known. -/
def declaredMembers (s : Scope) (root : Root) : List Node → Indexer (List Leaf)
  | [] => return []
  | .property _ (some key) keyParts value :: rest => do
    let found ←
      if value.isFunction || value.unparen.isObject then declaredAs s (.member root key) value
      else pure ((← declaredAll s keyParts) ++ (← declared s value))
    return found ++ (← declaredMembers s root rest)
  | .method _ _ (some key) _ f :: rest =>
    return (← declaredAs s (.member root key) f) ++ (← declaredMembers s root rest)
  | n :: rest => return (← declared s n) ++ (← declaredMembers s root rest)

/-- What the arguments of a call declare when functions without a name count. -/
def declaredArguments (s : Scope) (stop : Nat) : List Node → Indexer (List Leaf)
  | [] => return []
  | n :: rest => do
    let found ←
      if isAnonymousFunction n then do declaredAs s (.anonymous (← nextAnonymous) stop) n
      else declared s n
    return found ++ (← declaredArguments s stop rest)

/-- What the arguments of a call to `extend` declare. -/
def declaredExtensions (s : Scope) (bound : Bound) : List Node → Indexer (List Leaf)
  | [] => return []
  | n :: rest => do
    let found ←
      if n.bareArgument.isObject then declaredAs s bound n else declared s n
    return found ++ (← declaredExtensions s bound rest)
end

/-- The declarations of a script: a root that spans the whole text, with the functions below it, and
    what was reported. -/
structure Discovery where
  root : Leaf
  diagnostics : List Diagnostic
deriving Repr, Inhabited

def Discovery.ofProgram (program : Program) (file source : String) (withAnonymous : Bool) :
    Except IndexError Discovery := do
  let path := Path.ofScript file
  let scope : Scope := ⟨file, source.toList, withAnonymous, path, none⟩
  let (children, tally) ← (declaredAll scope program.body).run ⟨0, []⟩
  let root := Leaf.new path ⟨0, Text.width source.toList⟩
  return ⟨{ root with children := children }, tally.diagnostics⟩

end PageProbe
