import PageProbe.Proofs.Tree.Repetition

namespace PageProbe

namespace FunctionTree

/-- A leaf stands in a tree at a depth: at one if it is a root, and one deeper than a leaf that it is a
    child of. -/
inductive Stands (tree : FunctionTree) : Nat → Leaf → Prop where
  | root {leaf : Leaf} (h : leaf ∈ tree.children) : tree.Stands 1 leaf
  | child {depth : Nat} {leaf c : Leaf} (h : tree.Stands depth leaf) (hc : c ∈ leaf.children) :
      tree.Stands (depth + 1) c

theorem Stands.mono {tree tree' : FunctionTree} (hsub : ∀ root ∈ tree.children, root ∈ tree'.children)
    {depth : Nat} {leaf : Leaf} (h : tree.Stands depth leaf) : tree'.Stands depth leaf := by
  induction h with
  | root h => exact .root (hsub _ h)
  | child _ hc ih => exact .child ih hc

end FunctionTree

namespace Leaf

theorem searchAll?_eq_findSome? (name : String) (limit depth : Nat) (leaves : List Leaf) :
    searchAll? name limit depth leaves = leaves.findSome? (search? name limit depth) := by
  induction leaves with
  | nil => rfl
  | cons leaf rest ih =>
    rw [searchAll?, ih, List.findSome?_cons]
    cases search? name limit depth leaf <;> rfl

/-- What a search below a leaf finds has the name. It stands no deeper than one level below the limit,
    unless it is the leaf itself. -/
theorem search?_stands {tree : FunctionTree} {name : String} {limit depth : Nat} {leaf l : Leaf}
    (hleaf : tree.Stands depth leaf) (h : search? name limit depth leaf = some l) :
    ∃ d, tree.Stands d l ∧ name ∈ l.names ∧ depth ≤ d ∧ d ≤ max depth (limit + 1) := by
  induction leaf using induction_children generalizing depth with
  | step leaf ih =>
    rw [search?_eq] at h
    split at h
    · next hname =>
      cases h
      exact ⟨depth, hleaf, List.contains_iff_mem.mp hname, Nat.le_refl _, Nat.le_max_left _ _⟩
    split at h
    · cases h
    · next hdepth =>
      rw [searchAll?_eq_findSome?] at h
      obtain ⟨c, hc, hfound⟩ := List.exists_of_findSome?_eq_some h
      obtain ⟨d, hd, hname, hlow, hhigh⟩ := ih c hc (.child hleaf hc) hfound
      exact ⟨d, hd, hname, by omega, by omega⟩

end Leaf

namespace FunctionTree

/-- What is found for a call is a function of the page with its name, at most one level deeper than the
    limit. -/
theorem findDeclaration?_stands {tree : FunctionTree} {name : String} {limit : Nat} {l : Leaf}
    (hlimit : 0 < limit) (h : tree.findDeclaration? name limit = some l) :
    ∃ depth, tree.Stands depth l ∧ name ∈ l.names ∧ 2 ≤ depth ∧ depth ≤ limit + 1 := by
  rw [findDeclaration?] at h
  split at h
  · cases h
  · obtain ⟨root, hroot, h⟩ := List.exists_of_findSome?_eq_some h
    rw [Leaf.searchAll?_eq_findSome?] at h
    obtain ⟨c, hc, hfound⟩ := List.exists_of_findSome?_eq_some h
    obtain ⟨depth, hdepth, hname, hlow, hhigh⟩ :=
      Leaf.search?_stands (.child (.root hroot) hc) hfound
    exact ⟨depth, hdepth, hname, hlow, by omega⟩

/-- Earlier scripts are searched first. -/
theorem findDeclaration?_of_append {tree first : FunctionTree} {page : String} {later : List Leaf}
    (h : tree.children = first.children ++ later) (name : String) (limit : Nat) :
    tree.findDeclaration? name limit =
      (first.findDeclaration? name limit).or (findDeclaration? ⟨page, later⟩ name limit) := by
  simp only [findDeclaration?, h]
  split
  · rfl
  · exact List.findSome?_append

/-- The path that a record is given among the declarations of a tree: none if the function is called where
    it is written, and else the canonical path of what the search for its name finds. -/
def pathFor (tree : FunctionTree) (limit : Nat) (u : UsedFunction) : Option String :=
  if u.immediatelyInvoked then none else (tree.findDeclaration? u.name limit).map Leaf.path

theorem pathFor_eq_some {tree : FunctionTree} {limit : Nat} {u : UsedFunction} {path : String}
    (h : tree.pathFor limit u = some path) :
    u.immediatelyInvoked = false ∧
      ∃ declared, tree.findDeclaration? u.name limit = some declared ∧ declared.path = path := by
  rw [pathFor] at h
  split at h
  · cases h
  · next hinvoked => exact ⟨eq_false_of_ne_true hinvoked, Option.map_eq_some_iff.mp h⟩

theorem resolveUsed_path {tree tree' : FunctionTree}
    (h : tree'.children.map Leaf.bare = tree.children.map Leaf.bare) (limit : Nat) {u : UsedFunction}
    (hu : u.path = none) :
    (tree.resolveUsed limit u).path = tree'.pathFor limit (tree.resolveUsed limit u) := by
  rw [resolveUsed, hu]
  cases hinvoked : u.immediatelyInvoked with
  | true => simp [pathFor, hinvoked, hu]
  | false =>
    simp only [pathFor, findDeclaration?_path h, Option.isSome_none, Bool.or_self,
      Bool.false_eq_true, if_false]

end FunctionTree

/-- Every record of a leaf and of the leaves below it has the path that it is given among the declarations
    of a tree. -/
def Leaf.ResolvedIn (root : Leaf) (tree : FunctionTree) : Prop :=
  ∀ leaf ∈ root.walk, ∀ u ∈ leaf.usedFunctions, u.path = tree.pathFor (leaf.nestedDegree + 1) u

namespace FunctionTree

/-- A pass over a script whose records have no paths yet, if there are any, resolves all of them in the
    tree that it leaves. -/
theorem Holds.resolveCalls_resolved {tree : FunctionTree} {file : String} {before after : List Leaf}
    {root : Leaf} (h : tree.Holds file before root after) (hroot : root.Records fun _ u => u.path = none)
    (calls : List CallSite) :
    ∃ root', (tree.resolveCalls file calls).1.Holds file before root' after ∧
      root'.ResolvedIn (tree.resolveCalls file calls).1 := by
  obtain ⟨recorded, stats, hrecorded⟩ :
      ∃ recorded stats, calls.foldl Leaf.recordStep (root, ⟨0, 0, 0⟩) = (recorded, stats) := ⟨_, _, rfl⟩
  have hbare := Leaf.foldl_recordStep_bare calls (root, ⟨0, 0, 0⟩)
  have hpathless := Leaf.Records.foldl_recordStep calls (fun _ _ _ => rfl) (root, ⟨0, 0, 0⟩) hroot
  rw [hrecorded] at hbare hpathless
  have hpath : recorded.path = root.path := by rw [← Leaf.bare_path, hbare, Leaf.bare_path]
  obtain ⟨hrecording, hresolving, hdone⟩ := h.resolveCalls_stages hpath hrecorded
  let recording := tree.modifyRoot file fun _ => recorded
  let resolved := (recording.resolveLeaf recorded).1
  have hresolved : resolved = _ := recording.resolveLeaf_eq recorded
  have hsame := hrecording.children_bare hresolving (by rw [resolveLeaf_eq, Leaf.bare_withUsed])
  rw [hdone]
  refine ⟨resolved, hresolving, fun leaf hleaf u hu => ?_⟩
  rw [hresolved, Leaf.walk_withUsed] at hleaf
  obtain ⟨l, hl, rfl⟩ := List.mem_map.mp hleaf
  rw [Leaf.withUsed_usedFunctions] at hu
  obtain ⟨u, hrecord, rfl⟩ := List.mem_map.mp hu
  rw [Leaf.withUsed_nestedDegree]
  exact resolveUsed_path hsame _ (hpathless l hl u hrecord)

end FunctionTree
end PageProbe
