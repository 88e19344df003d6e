import PageProbe.Tree.Calls

/-!
A call is recorded on the innermost leaf of its script whose range contains it. Then the names of
recorded calls are looked up among the declarations of the page: a call made at depth `d` looks down to
depth `d + 2` at most, so that calls deep inside and calls of what the page does not declare stay
without a path.
-/

namespace PageProbe

/-- The name of a call to a function that is called where it is written. -/
def immediateName : String := "(immediately invoked)"

/-- What a pass over the calls of a script did. -/
structure ResolutionStats where
  /-- Calls that were newly recorded. -/
  attributed : Nat
  /-- Recorded calls that were given a path. -/
  resolved : Nat
  /-- Calls outside of the root of their script. -/
  unattributed : Nat
deriving DecidableEq, Repr, Inhabited

namespace Leaf

mutual
/-- The first leaf with a name, every leaf before its children. The leaf has the given depth, and
    children are searched while the depth is within `limit`. -/
def search? (name : String) (limit depth : Nat) : Leaf → Option Leaf
  | leaf@{ children := children, .. } =>
    if leaf.names.contains name then some leaf
    else if limit < depth then none
    else searchAll? name limit (depth + 1) children

def searchAll? (name : String) (limit depth : Nat) : List Leaf → Option Leaf
  | [] => none
  | c :: cs => (search? name limit depth c).or (searchAll? name limit depth cs)
end

/-- The name that a call made in a leaf is recorded under. A member of `this` is a member of the object
    that the leaf belongs to, or else of the leaf itself. -/
def nameOf (leaf : Leaf) : Callee → String
  | .named name => name
  | .ofThis tail => ((leaf.fromObject.map (·.name)).getD leaf.name) ++ tail
  | .immediate => immediateName
  | .unnamed => ""

/-- The record of a call made in a leaf. -/
def usedOf (leaf : Leaf) (c : CallSite) : UsedFunction :=
  { name := leaf.nameOf c.callee, range := c.range, line := c.line, arguments := c.arguments,
    path := none, immediatelyInvoked := c.callee == .immediate }

mutual
/-- Records a call on the innermost leaf that contains it, unless that leaf has a record of the same
    range. Also tells whether a record was added. -/
def record (c : CallSite) : Leaf → Leaf × Bool
  | leaf@{ children := children, .. } =>
    match recordBelow c children with
    | some (children, added) => ({ leaf with children := children }, added)
    | none =>
      if leaf.usedFunctions.any (fun u => u.range == c.range) then (leaf, false)
      else ({ leaf with usedFunctions := leaf.usedFunctions ++ [leaf.usedOf c] }, true)

/-- Records a call below the first leaf that contains it. -/
def recordBelow (c : CallSite) : List Leaf → Option (List Leaf × Bool)
  | [] => none
  | child :: rest =>
    if child.range.contains c.range then
      let (child, added) := record c child
      some (child :: rest, added)
    else (recordBelow c rest).map fun (rest, added) => (child :: rest, added)
end

/-- The root of a script and what was counted so far, with one more call that is recorded below the
    root, or counted when it lies outside. -/
def recordStep (state : Leaf × ResolutionStats) (c : CallSite) : Leaf × ResolutionStats :=
  if state.1.range.contains c.range then
    let (root, added) := state.1.record c
    (root, if added then { state.2 with attributed := state.2.attributed + 1 } else state.2)
  else (state.1, { state.2 with unattributed := state.2.unattributed + 1 })

end Leaf

namespace FunctionTree

/-- The declaration that a call by name finds, looking down to a limit of depth. -/
def findDeclaration? (tree : FunctionTree) (name : String) (limit : Nat) : Option Leaf :=
  if name = "" then none
  else tree.children.findSome? fun root => Leaf.searchAll? name limit 2 root.children

/-- A recorded call with the path of its declaration, if it has none yet and one is found. -/
def resolveUsed (tree : FunctionTree) (limit : Nat) (u : UsedFunction) : UsedFunction :=
  if u.path.isSome || u.immediatelyInvoked then u
  else { u with path := (tree.findDeclaration? u.name limit).map Leaf.path }

/-- The number of records that differ in having a path. -/
def newlyResolved (before after : List UsedFunction) : Nat :=
  ((before.zip after).filter fun (b, a) => b.path.isNone && a.path.isSome).length

mutual
/-- Resolves the recorded calls of a leaf and of all leaves below it. -/
def resolveLeaf (tree : FunctionTree) : Leaf → Leaf × Nat
  | leaf@{ children := children, .. } =>
    let used := leaf.usedFunctions.map (tree.resolveUsed (leaf.nestedDegree + 1))
    let (children, below) := resolveLeaves tree children
    ({ leaf with usedFunctions := used, children := children },
      newlyResolved leaf.usedFunctions used + below)

def resolveLeaves (tree : FunctionTree) : List Leaf → List Leaf × Nat
  | [] => ([], 0)
  | c :: cs =>
    let (c, here) := resolveLeaf tree c
    let (cs, there) := resolveLeaves tree cs
    (c :: cs, here + there)
end

/-- Records the calls of a script and resolves what is recorded below its root. Calls that are
    recorded already, and records that have a path, stay as they are. -/
def resolveCalls (tree : FunctionTree) (file : String) (calls : List CallSite) :
    FunctionTree × ResolutionStats :=
  match tree.scriptRoot? file with
  | none => (tree, ⟨0, 0, 0⟩)
  | some root =>
    let (root, stats) := calls.foldl Leaf.recordStep (root, ⟨0, 0, 0⟩)
    let tree := tree.modifyRoot file fun _ => root
    let (root, resolved) := tree.resolveLeaf root
    (tree.modifyRoot file fun _ => root, { stats with resolved := resolved })

end FunctionTree

open Json in
def ResolutionStats.write (s : ResolutionStats) : Document :=
  .object [
    ("attributed", .ofNat s.attributed), ("resolved", .ofNat s.resolved),
    ("unattributed", .ofNat s.unattributed)]

end PageProbe
