import PageProbe.Span
import PageProbe.Tree.Path

/-!
The roots stand for the scripts of the page, and each root holds the functions that its script
declares, nested as they are in the text. A leaf may have several paths when its function is bound to
several names; the first is the canonical one.
-/

namespace PageProbe

/-- A call made in the body of a leaf, and outside of its children. -/
structure UsedFunction where
  /-- The name of what is called, with `this` replaced. -/
  name : String
  range : Span
  line : Nat
  /-- The texts of the arguments. -/
  arguments : List String
  /-- The canonical path of the declaration that was found for the name. -/
  path : Option String
  immediatelyInvoked : Bool
deriving DecidableEq, Repr, Inhabited

/-- The object that a method is a member of. -/
structure Holder where
  name : String
  /-- Where the declaration of the object ends. -/
  stop : Nat
deriving DecidableEq, Repr, Inhabited

structure Leaf where
  paths : List String
  /-- The texts of the parameters. -/
  args : List String
  range : Span
  children : List Leaf
  usedFunctions : List UsedFunction
  fromObject : Option Holder
  functionSource : List String
  /-- The end of the statement that binds the function. -/
  declarationEnd : Option Nat
  /-- The end of the statement around a function without a name. -/
  anonymousEnd : Option Nat
deriving Repr, Inhabited

/-- What the names of functions without a name start with. -/
def anonymousPrefix : String := "AnonymousFunction"

namespace Leaf

/-- A leaf with a path and a range and nothing else. -/
def new (path : String) (range : Span) : Leaf :=
  { paths := [path], args := [], range := range, children := [], usedFunctions := [],
    fromObject := none, functionSource := [], declarationEnd := none, anonymousEnd := none }

/-- The canonical path. -/
def path (leaf : Leaf) : String := leaf.paths.headD ""

def name (leaf : Leaf) : String := Path.last leaf.path

/-- The last segments of all paths, the canonical one first. -/
def names (leaf : Leaf) : List String := leaf.paths.map Path.last

def hasChildren (leaf : Leaf) : Bool := !leaf.children.isEmpty

def isMethod (leaf : Leaf) : Bool := leaf.fromObject.isSome

def isAnonymous (leaf : Leaf) : Bool :=
  anonymousPrefix.toList.isPrefixOf leaf.name.toList && !leaf.functionSource.isEmpty

/-- The depth in the tree that the path tells: one for a script, two for a function of a script. -/
def nestedDegree (leaf : Leaf) : Nat := Path.depth leaf.path

def scriptName (leaf : Leaf) : String := Path.first leaf.path

/-- The offset behind which text for this leaf is spliced: the end of the object for a method, else
    the end of the statement for what an expression binds, else the end of the function. -/
def injectionPoint (leaf : Leaf) : Nat :=
  ((leaf.fromObject.map (·.stop)).or (leaf.anonymousEnd.or leaf.declarationEnd)).getD
    leaf.range.stop

mutual
/-- The leaf of a path below, and including, a leaf. One child is entered at each level: the first
    whose path is the part of the sought path that is one segment longer. -/
def find? (path : String) : Leaf → Option Leaf
  | leaf@{ children := children, .. } =>
    if leaf.path = path then some leaf
    else
      let own := (Path.segments leaf.path).length
      let wanted := Path.segments path
      if wanted.length ≤ own then none
      else findChild? path (Path.join (wanted.take (own + 1))) children

def findChild? (path step : String) : List Leaf → Option Leaf
  | [] => none
  | c :: cs => if c.path = step then find? path c else findChild? path step cs
end

mutual
/-- A leaf and all leaves below it, every leaf before its children. -/
def walk : Leaf → List Leaf
  | leaf@{ children := children, .. } => leaf :: walkAll children

def walkAll : List Leaf → List Leaf
  | [] => []
  | c :: cs => walk c ++ walkAll cs
end

end Leaf

/-- The functions of a page. -/
structure FunctionTree where
  page : String
  children : List Leaf
deriving Repr, Inhabited

namespace FunctionTree

def empty (page : String) : FunctionTree := ⟨page, []⟩

/-- The path of the page itself, above the roots of its scripts. -/
def path (_ : FunctionTree) : String := "/"

/-- The root of a script. -/
def scriptRoot? (tree : FunctionTree) (file : String) : Option Leaf :=
  tree.children.find? fun c => c.path == Path.ofScript file

def isAnalysed (tree : FunctionTree) (file : String) : Bool := (tree.scriptRoot? file).isSome

/-- Changes the first leaf that satisfies `p`. -/
def modifyFirst (p : Leaf → Bool) (f : Leaf → Leaf) : List Leaf → List Leaf
  | [] => []
  | c :: cs => if p c then f c :: cs else c :: modifyFirst p f cs

/-- Changes the root of a script, if there is one. -/
def modifyRoot (tree : FunctionTree) (file : String) (f : Leaf → Leaf) : FunctionTree :=
  { tree with children := modifyFirst (fun c => c.path == Path.ofScript file) f tree.children }

/-- Adds the root of a script in place of an earlier root of the same path. -/
def upsertRoot (tree : FunctionTree) (root : Leaf) : FunctionTree :=
  if tree.children.any (fun c => c.path == root.path) then
    { tree with children := modifyFirst (fun c => c.path == root.path) (fun _ => root) tree.children }
  else { tree with children := tree.children ++ [root] }

/-- The leaf of a canonical path. -/
def find? (tree : FunctionTree) (path : String) : Option Leaf :=
  let script := Path.first path
  if script = "" then none else (tree.scriptRoot? script).bind (·.find? path)

/-- All functions of the page, without the roots. -/
def functions (tree : FunctionTree) : List Leaf :=
  tree.children.flatMap fun root => root.walk.drop 1

/-- The leaves around a leaf, outermost first, without the root of the script. Parts of the path that
    name no leaf are left out. -/
def dependencies (tree : FunctionTree) (leaf : Leaf) : List Leaf :=
  let segments := Path.segments leaf.path
  ((List.range segments.length).drop 3).filterMap fun i => tree.find? (Path.join (segments.take i))

end FunctionTree
end PageProbe
