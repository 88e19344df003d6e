import PageProbe.Injection.Harness
import PageProbe.Page.Resource

/-!
Responses pass through the injector in chunks on their way to a page. Once it is armed, the first
chunk of the target's script that covers the injection point gets the harness of the next tuple, and
the injector is armed no longer. A nested target also needs its enclosing functions to be called:
those calls lie further back in the script, and are carried along until the chunk comes by that
covers them.
-/

namespace PageProbe

open Text (Bytes)

/-- A piece of the body of a response. -/
structure Chunk where
  uri : String
  contentType : String
  /-- Where the piece starts in the body. -/
  offset : Nat
  data : Bytes
  /-- Nothing follows the piece. -/
  isLast : Bool
deriving DecidableEq, Repr, Inhabited

namespace Chunk

def stop (c : Chunk) : Nat := c.offset + c.data.length

/-- Whether text for an offset of the body goes into the piece. The end of the body belongs to the last
    piece. -/
def covers (c : Chunk) (point : Nat) : Bool :=
  decide (c.offset ≤ point) && (decide (point < c.stop) || (c.isLast && point == c.stop))

end Chunk

/-- A text to be spliced into a body. -/
structure Insertion where
  /-- An offset of the body. -/
  point : Nat
  text : String
deriving DecidableEq, Repr, Inhabited

/-- Puts a text at an offset of the body into the piece that starts at `offset`. A semicolon at that
    place stays in front, since it ends the statement that the text is put behind. -/
def splice (data : Bytes) (offset point : Nat) (text : String) : Bytes :=
  let place := min (point - offset) data.length
  let place := if data[place]? = some 0x3B then place + 1 else place
  data.take place ++ Text.encode text ++ data.drop place

namespace Insertion

/-- Puts an insertion behind those that lie at its point or after it. -/
def place (x : Insertion) : List Insertion → List Insertion
  | [] => [x]
  | y :: ys => if x.point ≤ y.point then y :: place x ys else x :: y :: ys

/-- The insertions from the back of the body to its front, so that each can be made without moving
    the points of those that follow. At one point the last insertion is made first, and so ends up
    last. -/
def backToFront : List Insertion → List Insertion
  | [] => []
  | x :: xs => place x (backToFront xs)

/-- Makes all insertions in the piece that starts at `offset`. -/
def applyAll (data : Bytes) (offset : Nat) (insertions : List Insertion) : Bytes :=
  (backToFront insertions).foldl (fun data i => splice data offset i.point i.text) data

end Insertion

/-- A call of an enclosing function. -/
structure DependencyCall where
  name : String
  point : Nat
  /-- The texts of the arguments. -/
  args : List String
deriving DecidableEq, Repr, Inhabited

/-- A function under test, and where its script has to be changed. -/
structure InjectionTarget where
  path : String
  script : String
  point : Nat
  harness : Harness
  /-- The enclosing functions, outermost first. -/
  dependencies : List DependencyCall
deriving DecidableEq, Repr, Inhabited

namespace InjectionTarget

/-- The target that a path names. The `i`-th enclosing function is called with the `i`-th list of
    arguments, and without arguments when there is none. -/
def ofPath (tree : FunctionTree) (path : String) (dependencyArgs : List (List String)) :
    Except TargetError InjectionTarget := do
  let some leaf := tree.find? path | .error (.unknown path)
  let harness ← Harness.ofLeaf leaf
  let dependencies := (tree.dependencies leaf).zipIdx.map fun (d, i) =>
    ⟨d.name, d.injectionPoint, (dependencyArgs[i]?).getD []⟩
  return ⟨path, leaf.scriptName, leaf.injectionPoint, harness, dependencies⟩

/-- What is spliced for a tuple: the harness, and for a nested target the calls of the enclosing
    functions. -/
def insertions (target : InjectionTarget) (tuple : Tuple) : List Insertion :=
  ⟨target.point, target.harness.render tuple⟩ ::
    if target.harness.isTopLevel then []
    else target.dependencies.map fun d => ⟨d.point, callStatement d.name d.args⟩

/-- Whether a piece is one of the target's script. -/
def concerns (target : InjectionTarget) (c : Chunk) : Bool :=
  ContentType.isScript c.contentType && scriptName c.uri == target.script

end InjectionTarget

structure Injector where
  /-- Whether the next piece that covers the injection point gets a harness. -/
  active : Bool
  /-- The tuples that wait for their injection, the next one first. -/
  queue : List Tuple
  target : Option InjectionTarget
  /-- The insertions of the last injection that have not come by yet. -/
  carried : List Insertion
deriving Repr, Inhabited

namespace Injector

def empty : Injector := ⟨false, [], none, []⟩

def pending (i : Injector) : Nat := i.queue.length

def targetPath (i : Injector) : Option String := i.target.map (·.path)

def activate (i : Injector) : Injector := { i with active := true, carried := [] }

def deactivate (i : Injector) : Injector := { i with active := false }

/-- Drops the target and everything that waits. -/
def clear (_ : Injector) : Injector := empty

/-- Chooses the function whose script is changed. -/
def select (_ : Injector) (tree : FunctionTree) (path : String)
    (dependencyArgs : List (List String)) : Except TargetError Injector :=
  (InjectionTarget.ofPath tree path dependencyArgs).map fun target =>
    ⟨false, [], some target, []⟩

/-- Queues a batch in place of what waited. -/
def load (i : Injector) (batch : List Tuple) : Injector := { i with queue := batch }

/-- Drops the next tuple if it is the given one. It is still there when the page of its execution
    never asked for the script. -/
def settle (i : Injector) (uuid : String) : Injector :=
  match i.queue with
  | t :: rest => if t.uuid = uuid then { i with queue := rest } else i
  | [] => i

/-- Takes the next tuple when the injector is armed and a piece covers the injection point. -/
def arm (i : Injector) (target : InjectionTarget) (c : Chunk) : Injector :=
  match i.queue with
  | t :: rest =>
    if i.active && c.covers target.point then
      { i with active := false, queue := rest, carried := target.insertions t }
    else i
  | [] => i

/-- Lets go of the carried insertions that a piece covers, or has left behind. -/
def pass (i : Injector) (c : Chunk) : Injector :=
  { i with carried := i.carried.filter fun x => !c.covers x.point && decide (c.offset ≤ x.point) }

/-- Passes a piece through the injector. The answer holds the piece when it was changed, and nothing
    when it goes on as it is. -/
def intercept (i : Injector) (c : Chunk) : Injector × Option Bytes :=
  match i.target with
  | none => (i, none)
  | some target =>
    if target.concerns c then
      let i := i.arm target c
      match i.carried.filter fun x => c.covers x.point with
      | [] => (i.pass c, none)
      | now => (i.pass c, some (Insertion.applyAll c.data c.offset now))
    else (i, none)

/-- A piece as it leaves the injector. -/
def pieceOf (c : Chunk) (changed : Option Bytes) : Bytes := changed.getD c.data

end Injector
end PageProbe
