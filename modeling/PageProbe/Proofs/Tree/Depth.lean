import PageProbe.Proofs.Tree.Search

namespace PageProbe
namespace Leaf

mutual
/-- A leaf and all leaves below it in the order of a walk, each with its depth when the leaf has the given
    one. -/
def levels (depth : Nat) : Leaf → List (Nat × Leaf)
  | leaf@{ children := children, .. } => (depth, leaf) :: levelsAll (depth + 1) children

def levelsAll (depth : Nat) : List Leaf → List (Nat × Leaf)
  | [] => []
  | c :: cs => levels depth c ++ levelsAll depth cs
end

theorem levelsAll_eq (depth : Nat) (leaves : List Leaf) :
    levelsAll depth leaves = leaves.flatMap (levels depth) := by
  induction leaves with
  | nil => rfl
  | cons leaf rest ih => rw [levelsAll, ih, List.flatMap_cons]

theorem levels_eq (depth : Nat) (leaf : Leaf) :
    leaf.levels depth = (depth, leaf) :: leaf.children.flatMap (levels (depth + 1)) := by
  cases leaf
  rw [levels, levelsAll_eq]

theorem levels_leaves (depth : Nat) (leaf : Leaf) : (leaf.levels depth).map Prod.snd = leaf.walk := by
  induction leaf using induction_children generalizing depth with
  | step leaf ih =>
    rw [levels_eq, walk_eq, List.map_cons, List.map_flatMap]
    exact congrArg (leaf :: ·) (List.flatMap_congr fun c hc => ih c hc (depth + 1))

theorem le_of_mem_levels {depth : Nat} {leaf : Leaf} {p : Nat × Leaf} (h : p ∈ leaf.levels depth) :
    depth ≤ p.1 := by
  induction leaf using induction_children generalizing depth with
  | step leaf ih =>
    rw [levels_eq] at h
    rcases List.mem_cons.mp h with rfl | h
    · exact Nat.le_refl _
    · obtain ⟨c, hc, h⟩ := List.mem_flatMap.mp h
      have hle := ih c hc h
      omega

theorem self_mem_levels (depth : Nat) (leaf : Leaf) : (depth, leaf) ∈ leaf.levels depth := by
  rw [levels_eq]
  exact List.mem_cons_self

theorem mem_levels_child {depth d : Nat} {leaf l c : Leaf} (h : (d, l) ∈ leaf.levels depth)
    (hc : c ∈ l.children) : (d + 1, c) ∈ leaf.levels depth := by
  induction leaf using induction_children generalizing depth with
  | step leaf ih =>
    rw [levels_eq] at h ⊢
    refine List.mem_cons_of_mem _ (List.mem_flatMap.mpr ?_)
    rcases List.mem_cons.mp h with h | h
    · obtain ⟨rfl, rfl⟩ := Prod.mk.inj h
      exact ⟨c, hc, self_mem_levels (d + 1) c⟩
    · obtain ⟨child, hchild, h⟩ := List.mem_flatMap.mp h
      exact ⟨child, hchild, ih child hchild h⟩

/-- Whether a leaf has a name and is no deeper than a bound. -/
def answers (name : String) (bound : Nat) (p : Nat × Leaf) : Bool :=
  p.2.names.contains name && decide (p.1 ≤ bound)

theorem answers_eq_true {name : String} {bound : Nat} {p : Nat × Leaf} :
    answers name bound p = true ↔ name ∈ p.2.names ∧ p.1 ≤ bound := by
  rw [answers, Bool.and_eq_true, List.contains_iff_mem, decide_eq_true_iff]

theorem searchAll?_eq_find? {name : String} {limit depth bound : Nat} {leaves : List Leaf}
    (h : ∀ c ∈ leaves,
      search? name limit depth c = ((c.levels depth).find? (answers name bound)).map Prod.snd) :
    searchAll? name limit depth leaves =
      ((leaves.flatMap (levels depth)).find? (answers name bound)).map Prod.snd := by
  induction leaves with
  | nil => rfl
  | cons c rest ih =>
    obtain ⟨hc, hrest⟩ := List.forall_mem_cons.mp h
    rw [searchAll?, hc, ih hrest, List.flatMap_cons, List.find?_append, Option.map_or]

/-- A search below a leaf is a search among the levels, down to one level below the limit. The leaf itself is
    looked at whatever the limit is. -/
theorem search?_eq_find? (name : String) (limit depth : Nat) (leaf : Leaf) :
    search? name limit depth leaf =
      ((leaf.levels depth).find? (answers name (max depth (limit + 1)))).map Prod.snd := by
  induction leaf using induction_children generalizing depth with
  | step leaf ih =>
    rw [search?_eq, levels_eq, List.find?_cons]
    have hself : answers name (max depth (limit + 1)) (depth, leaf) = leaf.names.contains name := by
      rw [answers, decide_eq_true (Nat.le_max_left depth (limit + 1)), Bool.and_true]
    rw [hself]
    cases leaf.names.contains name with
    | true => rfl
    | false =>
      rw [if_neg Bool.false_ne_true]
      by_cases hlimit : limit < depth
      · -- Nothing below the leaf is within the bound.
        have hdeeper : (leaf.children.flatMap (levels (depth + 1))).find?
            (answers name (max depth (limit + 1))) = none := by
          refine List.find?_eq_none.mpr fun p hp hanswers => ?_
          obtain ⟨c, -, hp⟩ := List.mem_flatMap.mp hp
          have hdepth := le_of_mem_levels hp
          have hbound := (answers_eq_true.mp hanswers).2
          omega
        rw [if_pos hlimit, hdeeper]
        rfl
      · have hbound : max (depth + 1) (limit + 1) = max depth (limit + 1) := by omega
        rw [if_neg hlimit]
        exact searchAll?_eq_find? fun c hc => hbound ▸ ih c hc (depth + 1)

end Leaf

namespace FunctionTree

/-- All functions of the page in the order of a walk, each with its depth. -/
def depths (tree : FunctionTree) : List (Nat × Leaf) :=
  tree.children.flatMap fun root => root.children.flatMap (Leaf.levels 2)

theorem depths_leaves (tree : FunctionTree) : tree.depths.map Prod.snd = tree.functions := by
  rw [depths, functions, List.map_flatMap]
  refine List.flatMap_congr fun root _ => ?_
  rw [List.map_flatMap, Leaf.walk_eq, List.drop_one, List.tail_cons]
  exact List.flatMap_congr fun c _ => Leaf.levels_leaves 2 c

theorem Stands.of_mem_levels {tree : FunctionTree} {depth : Nat} {leaf : Leaf}
    (h : tree.Stands depth leaf) {p : Nat × Leaf} (hp : p ∈ leaf.levels depth) : tree.Stands p.1 p.2 := by
  induction leaf using Leaf.induction_children generalizing depth with
  | step leaf ih =>
    rw [Leaf.levels_eq] at hp
    rcases List.mem_cons.mp hp with rfl | hp
    · exact h
    · obtain ⟨c, hc, hp⟩ := List.mem_flatMap.mp hp
      exact ih c hc (.child h hc) hp

theorem Stands.mem_levels {tree : FunctionTree} {depth : Nat} {leaf : Leaf} (h : tree.Stands depth leaf) :
    ∃ root ∈ tree.children, (depth, leaf) ∈ root.levels 1 := by
  induction h with
  | root h => exact ⟨_, h, Leaf.self_mem_levels 1 _⟩
  | child _ hc ih =>
    obtain ⟨root, hroot, hleaf⟩ := ih
    exact ⟨root, hroot, Leaf.mem_levels_child hleaf hc⟩

/-- The functions with their depths are the leaves that stand below the roots. -/
theorem mem_depths {tree : FunctionTree} {depth : Nat} {leaf : Leaf} :
    (depth, leaf) ∈ tree.depths ↔ tree.Stands depth leaf ∧ 2 ≤ depth := by
  constructor
  · intro h
    obtain ⟨root, hroot, h⟩ := List.mem_flatMap.mp h
    obtain ⟨c, hc, h⟩ := List.mem_flatMap.mp h
    exact ⟨Stands.of_mem_levels (.child (.root hroot) hc) h, Leaf.le_of_mem_levels h⟩
  · rintro ⟨h, hdepth⟩
    obtain ⟨root, hroot, hleaf⟩ := h.mem_levels
    rw [Leaf.levels_eq] at hleaf
    rcases List.mem_cons.mp hleaf with hself | hleaf
    · have hroot : depth = 1 := (Prod.mk.inj hself).1
      omega
    · exact List.mem_flatMap.mpr ⟨root, hroot, hleaf⟩

/-- The search for a declaration is a search among all functions, in the order of a walk. -/
theorem findDeclaration?_eq_find? {name : String} (hname : name ≠ "") (tree : FunctionTree) (limit : Nat) :
    tree.findDeclaration? name limit =
      (tree.depths.find? (Leaf.answers name (max 2 (limit + 1)))).map Prod.snd := by
  rw [findDeclaration?, if_neg hname, depths, List.find?_flatMap, List.map_findSome?]
  refine congrArg (List.findSome? · tree.children) (funext fun root => ?_)
  exact Leaf.searchAll?_eq_find? fun c _ => Leaf.search?_eq_find? name limit 2 c

/-- What is found for a name is the first function of the page, in the order in which the functions are
    listed, that has the name as the end of one of its paths and that is deep enough in the tree to be
    looked at: a function of a script always is, and any other if it is at most one level below the limit.
    Nothing is found exactly if there is no such function. Several leaves may have one name, and nothing is
    assumed of the tree or of the limit. -/
theorem findDeclaration?_first {name : String} (hname : name ≠ "") (tree : FunctionTree) (limit : Nat) :
    tree.depths.map Prod.snd = tree.functions ∧
    (∀ depth leaf, (depth, leaf) ∈ tree.depths ↔ tree.Stands depth leaf ∧ 2 ≤ depth) ∧
    (∀ leaf, tree.findDeclaration? name limit = some leaf ↔
      ∃ depth before after, tree.depths = before ++ (depth, leaf) :: after ∧
        name ∈ leaf.names ∧ depth ≤ max 2 (limit + 1) ∧
        ∀ p ∈ before, name ∈ p.2.names → max 2 (limit + 1) < p.1) ∧
    (tree.findDeclaration? name limit = none ↔
      ∀ depth leaf, tree.Stands depth leaf → 2 ≤ depth → name ∈ leaf.names →
        max 2 (limit + 1) < depth) := by
  have hfound := findDeclaration?_eq_find? hname tree limit
  have hskipped (p : Nat × Leaf) : ¬Leaf.answers name (max 2 (limit + 1)) p = true ↔
      (name ∈ p.2.names → max 2 (limit + 1) < p.1) := by
    rw [Leaf.answers_eq_true, not_and, Nat.not_le]
  refine ⟨tree.depths_leaves, fun depth leaf => mem_depths, fun leaf => ?_, ?_⟩
  · rw [hfound, Option.map_eq_some_iff]
    constructor
    · rintro ⟨⟨depth, leaf⟩, hp, rfl⟩
      obtain ⟨hanswers, before, after, hsplit, hbefore⟩ := List.find?_eq_some_iff_append.mp hp
      obtain ⟨hmem, hdepth⟩ := Leaf.answers_eq_true.mp hanswers
      refine ⟨depth, before, after, hsplit, hmem, hdepth, fun p hp => (hskipped p).mp ?_⟩
      simpa using hbefore p hp
    · rintro ⟨depth, before, after, hsplit, hmem, hdepth, hbefore⟩
      refine ⟨(depth, leaf), List.find?_eq_some_iff_append.mpr
        ⟨Leaf.answers_eq_true.mpr ⟨hmem, hdepth⟩, before, after, hsplit, fun p hp => ?_⟩, rfl⟩
      simpa using (hskipped p).mpr (hbefore p hp)
  · rw [hfound, Option.map_eq_none_iff, List.find?_eq_none]
    constructor
    · intro hnone depth leaf hstands hdepth
      exact (hskipped (depth, leaf)).mp (hnone _ (mem_depths.mpr ⟨hstands, hdepth⟩))
    · intro hnone p hp
      obtain ⟨hstands, hdepth⟩ := mem_depths.mp hp
      exact (hskipped p).mpr (hnone p.1 p.2 hstands hdepth)

end FunctionTree

namespace Sample

/-- A page on which a deeper function comes before a function of the same name. -/
def sameNameDeeper : FunctionTree :=
  ⟨"page", [leafWith "/a.js" [leafWith "/a.js/f" [leafWith "/a.js/f/g" [leafWith "/a.js/f/g/t" []]],
    leafWith "/a.js/t" []]]⟩

end Sample

namespace FunctionTree

theorem findDeclaration?_first_pruned :
    (∃ leaf depth before after, Sample.sameNameDeeper.findDeclaration? "t" 2 = some leaf ∧
      leaf.path = "/a.js/t" ∧ Sample.sameNameDeeper.depths = before ++ (depth, leaf) :: after ∧
      ∀ p ∈ before, "t" ∈ p.2.names → 3 < p.1) ∧
    (∃ leaf, Sample.sameNameDeeper.findDeclaration? "t" 3 = some leaf ∧ leaf.path = "/a.js/f/g/t") := by
  have hshallow : (Sample.sameNameDeeper.findDeclaration? "t" 2).map Leaf.path = some "/a.js/t" := by
    decide +kernel
  have hdeep : (Sample.sameNameDeeper.findDeclaration? "t" 3).map Leaf.path = some "/a.js/f/g/t" := by
    decide +kernel
  obtain ⟨leaf, hleaf, hpath⟩ := Option.map_eq_some_iff.mp hshallow
  obtain ⟨depth, before, after, hsplit, -, -, hbefore⟩ :=
    ((findDeclaration?_first (by decide) Sample.sameNameDeeper 2).2.2.1 leaf).mp hleaf
  exact ⟨⟨leaf, depth, before, after, hleaf, hpath, hsplit, hbefore⟩, Option.map_eq_some_iff.mp hdeep⟩

end FunctionTree
end PageProbe
