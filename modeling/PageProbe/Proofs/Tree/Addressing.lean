import Mathlib.Data.List.Nodup
import PageProbe.Proofs.Tree.Lookup

namespace PageProbe
namespace Leaf

/-- A leaf below another, with the leaves around it from the other one inwards. -/
inductive Within (root : Leaf) : List Leaf → Leaf → Prop where
  | root : Within root [] root
  | child {around : List Leaf} {leaf c : Leaf} (h : Within root around leaf) (hc : c ∈ leaf.children) :
      Within root (around ++ [leaf]) c

theorem Within.mem_walk {root leaf : Leaf} {around : List Leaf} (h : Within root around leaf) :
    leaf ∈ root.walk := by
  induction h with
  | root => exact root.self_mem_walk
  | @child around leaf c _ hc ih => exact mem_walk_trans ih (mem_walk_of_child hc c.self_mem_walk)

theorem Within.of_child {root c leaf : Leaf} {around : List Leaf} (hc : c ∈ root.children)
    (h : Within c around leaf) : Within root (root :: around) leaf := by
  induction h with
  | root => exact .child .root hc
  | child _ hd ih => exact .child ih hd

theorem exists_within {root leaf : Leaf} (h : leaf ∈ root.walk) : ∃ around, Within root around leaf := by
  induction root using induction_children with
  | step root ih =>
    rw [walk_eq] at h
    rcases List.mem_cons.mp h with rfl | h
    · exact ⟨[], .root⟩
    · obtain ⟨c, hc, h⟩ := List.mem_flatMap.mp h
      obtain ⟨around, hwithin⟩ := ih c hc h
      exact ⟨root :: around, hwithin.of_child hc⟩

/-- Every leaf around a leaf adds one segment to its path. -/
theorem Within.segments_length {root leaf : Leaf} {around : List Leaf}
    (hclear : ∀ l ∈ root.walk, l.Clear) (h : Within root around leaf) :
    (Path.segments leaf.path).length = (Path.segments root.path).length + around.length := by
  induction h with
  | root => rfl
  | child h hc ih =>
    obtain ⟨name, hname, hplain⟩ := (hclear _ h.mem_walk).plain _ hc
    rw [hname, Path.segments_child, Path.segments_of_plain hplain, List.length_append, ih,
      List.length_append, Nat.add_assoc]
    rfl

theorem Clear.namesChildren {leaf : Leaf} (h : leaf.Clear) : leaf.NamesChildren := fun c hc =>
  (h.plain c hc).imp fun _ hname => hname.1

/-- The leaves below a leaf with clear leaves only have different paths. -/
theorem walk_paths_nodup {root : Leaf} (hclear : ∀ l ∈ root.walk, l.Clear) :
    (root.walk.map Leaf.path).Nodup := by
  induction root using induction_children with
  | step root ih =>
    have hroot := hclear root root.self_mem_walk
    have hbelow (c : Leaf) (hc : c ∈ root.children) : ∀ l ∈ c.walk, l.Clear := fun l hl =>
      hclear l (mem_walk_of_child hc hl)
    -- The path of a leaf below a child tells the child.
    have hchild (c : Leaf) (hc : c ∈ root.children) (l : Leaf) (hl : l ∈ c.walk) :
        Path.join ((Path.segments l.path).take ((Path.segments root.path).length + 1)) = c.path ∧
          (Path.segments root.path).length < (Path.segments l.path).length := by
      obtain ⟨name, hname, hplain⟩ := hroot.plain c hc
      obtain ⟨more, hmore⟩ := segments_of_mem_walk (fun l hl => (hbelow c hc l hl).namesChildren) hl
      have hlength : (Path.segments c.path).length = (Path.segments root.path).length + 1 := by
        rw [hname, Path.segments_child, Path.segments_of_plain hplain, List.length_append]
        rfl
      refine ⟨by rw [hmore, ← hlength, List.take_left, Path.join_segments], ?_⟩
      rw [hmore, List.length_append]
      omega
    rw [walk_eq, List.map_cons, List.map_flatMap, List.nodup_cons, List.nodup_flatMap]
    refine ⟨fun hmem => ?_, fun c hc => ih c hc (hbelow c hc), ?_⟩
    · obtain ⟨c, hc, hmem⟩ := List.mem_flatMap.mp hmem
      obtain ⟨l, hl, hpath⟩ := List.mem_map.mp hmem
      have hlonger := (hchild c hc l hl).2
      rw [hpath] at hlonger
      omega
    · refine hroot.distinct.imp_of_mem fun {c c'} hc hc' hne => ?_
      intro path hmem hmem'
      obtain ⟨l, hl, rfl⟩ := List.mem_map.mp hmem
      obtain ⟨l', hl', hpath⟩ := List.mem_map.mp hmem'
      exact hne (by rw [← (hchild c hc l hl).1, ← (hchild c' hc' l' hl').1, hpath])

end Leaf

namespace FunctionTree

/-- All leaves of a page, roots included. -/
def leaves (tree : FunctionTree) : List Leaf := tree.children.flatMap Leaf.walk

/-- A page whose scripts have different names, and in which the leaves right below a leaf have different
    names without slashes. -/
structure Addressed (tree : FunctionTree) : Prop where
  scripts : ∀ root ∈ tree.children, ∃ file, root.path = Path.ofScript file ∧ file ≠ "" ∧ '/' ∉ file.toList
  distinct : tree.children.Pairwise fun root root' => root.path ≠ root'.path
  clear : ∀ root ∈ tree.children, ∀ leaf ∈ root.walk, leaf.Clear

section
variable {tree : FunctionTree} {root leaf : Leaf}

theorem Addressed.segments (h : tree.Addressed) (hroot : root ∈ tree.children) (hleaf : leaf ∈ root.walk) :
    ∃ file more, file ≠ "" ∧ root.path = Path.ofScript file ∧
      Path.segments leaf.path = "" :: file :: more := by
  obtain ⟨file, hpath, hfile, hplain⟩ := h.scripts root hroot
  obtain ⟨more, hmore⟩ := (Leaf.leads_of_clear (h.clear root hroot) hleaf).segments
  exact ⟨file, more, hfile, hpath, by rw [hmore, hpath, Path.segments_ofScript hplain]; rfl⟩

/-- Every leaf is found by its path. -/
theorem Addressed.find?_path (h : tree.Addressed) (hroot : root ∈ tree.children)
    (hleaf : leaf ∈ root.walk) : tree.find? leaf.path = some leaf := by
  obtain ⟨file, more, hfile, hpath, hsegments⟩ := h.segments hroot hleaf
  have hscript : tree.scriptRoot? file = some root := by
    rw [scriptRoot?, ← hpath]
    exact Leaf.find?_of_distinct h.distinct hroot
  rw [find?_of_segments hfile hscript hsegments,
    (Leaf.leads_of_clear (h.clear root hroot) hleaf).find?_self]

theorem Addressed.find?_eq_some_iff (h : tree.Addressed) {path : String} :
    tree.find? path = some leaf ↔ leaf ∈ tree.leaves ∧ leaf.path = path := by
  constructor
  · intro hfind
    obtain ⟨root, _, hroot, hleaf, hpath⟩ := find?_eq_some hfind
    exact ⟨List.mem_flatMap.mpr ⟨root, List.mem_of_find?_eq_some hroot, hleaf⟩, hpath⟩
  · rintro ⟨hleaf, rfl⟩
    obtain ⟨root, hroot, hleaf⟩ := List.mem_flatMap.mp hleaf
    exact h.find?_path hroot hleaf

/-- The leaves of a page have different paths. -/
theorem Addressed.paths_nodup (h : tree.Addressed) : (tree.leaves.map Leaf.path).Nodup := by
  rw [leaves, List.map_flatMap, List.nodup_flatMap]
  refine ⟨fun root hroot => Leaf.walk_paths_nodup (h.clear root hroot), ?_⟩
  refine h.distinct.imp_of_mem fun {root root'} hroot hroot' hne => ?_
  intro path hmem hmem'
  obtain ⟨l, hl, rfl⟩ := List.mem_map.mp hmem
  obtain ⟨l', hl', hpath⟩ := List.mem_map.mp hmem'
  obtain ⟨file, more, _, hfile, hsegments⟩ := h.segments hroot hl
  obtain ⟨file', more', _, hfile', hsegments'⟩ := h.segments hroot' hl'
  rw [hpath, hsegments] at hsegments'
  have hsame : file = file' := (List.cons.inj (List.cons.inj hsegments').2).1
  exact hne (by rw [hfile, hfile', hsame])

theorem dependencies_of_short (h : (Path.segments leaf.path).length ≤ 3) : tree.dependencies leaf = [] := by
  have hnone : (List.range (Path.segments leaf.path).length).drop 3 = [] :=
    List.drop_eq_nil_of_le (by rwa [List.length_range])
  rw [dependencies, hnone, List.filterMap_nil]

/-- The leaves around a function are those around the leaf that it is a child of, and that leaf. -/
theorem dependencies_child {c : Leaf} {name : String} (hname : c.path = Path.child leaf.path name)
    (hplain : '/' ∉ name.toList) (hlong : 3 ≤ (Path.segments leaf.path).length)
    (hfind : tree.find? leaf.path = some leaf) :
    tree.dependencies c = tree.dependencies leaf ++ [leaf] := by
  have hsegments : Path.segments c.path = Path.segments leaf.path ++ [name] := by
    rw [hname, Path.segments_child, Path.segments_of_plain hplain]
  have hrange : (List.range (Path.segments c.path).length).drop 3 =
      (List.range (Path.segments leaf.path).length).drop 3 ++ [(Path.segments leaf.path).length] := by
    rw [hsegments, List.length_append, List.length_singleton, List.range_succ,
      List.drop_append_of_le_length (by rwa [List.length_range])]
  have hbefore : ∀ i ∈ (List.range (Path.segments leaf.path).length).drop 3,
      tree.find? (Path.join ((Path.segments c.path).take i)) =
        tree.find? (Path.join ((Path.segments leaf.path).take i)) := by
    intro i hi
    have hi : i < (Path.segments leaf.path).length := List.mem_range.mp (List.mem_of_mem_drop hi)
    rw [hsegments, List.take_append_of_le_length (Nat.le_of_lt hi)]
  have hlast : [(Path.segments leaf.path).length].filterMap
      (fun i => tree.find? (Path.join ((Path.segments c.path).take i))) = [leaf] := by
    simp only [List.filterMap_cons, List.filterMap_nil, hsegments, List.take_left, Path.join_segments, hfind]
  rw [dependencies, dependencies, hrange, List.filterMap_append, List.filterMap_congr hbefore, hlast]

/-- The leaves that the parts of a path name are the leaves around the leaf of the path. -/
theorem Addressed.dependencies_eq (h : tree.Addressed) (hroot : root ∈ tree.children) {around : List Leaf}
    (hwithin : root.Within around leaf) : tree.dependencies leaf = around.drop 1 := by
  have hlength {around : List Leaf} {leaf : Leaf} (hwithin : root.Within around leaf) :
      (Path.segments leaf.path).length = 2 + around.length := by
    obtain ⟨file, hpath, -, hplain⟩ := h.scripts root hroot
    rw [hwithin.segments_length (h.clear root hroot), hpath, Path.segments_ofScript hplain]
    rfl
  induction hwithin with
  | root => exact dependencies_of_short (by rw [hlength .root]; decide)
  | @child around leaf c hwithin hc ih =>
    cases around with
    | nil => exact dependencies_of_short (Nat.le_of_eq (hlength (hwithin.child hc)))
    | cons first rest =>
      obtain ⟨name, hname, hplain⟩ := (h.clear root hroot leaf hwithin.mem_walk).plain c hc
      have hlong : 3 ≤ (Path.segments leaf.path).length := by
        rw [hlength hwithin, List.length_cons]
        omega
      rw [dependencies_child hname hplain hlong (h.find?_path hroot hwithin.mem_walk), ih]
      rfl

/-- Where paths tell functions apart, all leaves have different paths, a lookup of a path gives the one leaf
    that has it and nothing if there is none, and the dependencies of a leaf are all functions around it,
    outermost first, without the root of the script. -/
theorem addressed_lookup (h : tree.Addressed) :
    (tree.leaves.map Leaf.path).Nodup ∧
    (∀ path leaf, tree.find? path = some leaf ↔ leaf ∈ tree.leaves ∧ leaf.path = path) ∧
    (∀ path, tree.find? path = none ↔ ∀ leaf ∈ tree.leaves, leaf.path ≠ path) ∧
    (∀ root ∈ tree.children, ∀ leaf ∈ root.walk, ∃ around, root.Within around leaf) ∧
    ∀ root ∈ tree.children, ∀ around leaf, root.Within around leaf →
      tree.dependencies leaf = around.drop 1 := by
  refine ⟨h.paths_nodup, fun path leaf => h.find?_eq_some_iff, fun path => ?_,
    fun root _ leaf hleaf => Leaf.exists_within hleaf,
    fun root hroot around leaf hwithin => h.dependencies_eq hroot hwithin⟩
  rw [Option.eq_none_iff_forall_ne_some]
  constructor
  · exact fun hnone leaf hleaf hpath => hnone leaf (h.find?_eq_some_iff.mpr ⟨hleaf, hpath⟩)
  · intro hnone leaf hfind
    obtain ⟨hleaf, hpath⟩ := h.find?_eq_some_iff.mp hfind
    exact hnone leaf hleaf hpath

end

end FunctionTree

namespace Sample

def innermost : Leaf := leafWith "/a.js/f/g" []

def outermost : Leaf := leafWith "/a.js/f" [innermost]

/-- A page with two scripts, one of which has a function inside of a function. -/
def twoScripts : FunctionTree := ⟨"page", [leafWith "/a.js" [outermost], leafWith "/b.js" []]⟩

theorem twoScripts_addressed : twoScripts.Addressed where
  scripts root hroot := by
    simp only [twoScripts, List.mem_cons, List.not_mem_nil, or_false] at hroot
    rcases hroot with rfl | rfl
    · exact ⟨"a.js", by decide, by decide, by decide⟩
    · exact ⟨"b.js", by decide, by decide, by decide⟩
  distinct := by
    simp only [twoScripts, List.pairwise_cons, List.mem_singleton, forall_eq]
    exact ⟨by decide, fun _ h => absurd h List.not_mem_nil, .nil⟩
  clear root hroot leaf hleaf := by
    have hsingle {path : String} {c : Leaf} (name : String) (hc : c.path = Path.child path name)
        (hplain : '/' ∉ name.toList) : (leafWith path [c]).Clear := by
      refine ⟨fun d hd => ?_, List.pairwise_singleton _ c⟩
      rw [List.mem_singleton.mp hd]
      exact ⟨name, hc, hplain⟩
    have hempty (path : String) : (leafWith path []).Clear :=
      ⟨fun _ hc => absurd hc List.not_mem_nil, .nil⟩
    have hleaves : twoScripts.leaves =
        [leafWith "/a.js" [outermost], outermost, innermost, leafWith "/b.js" []] := rfl
    have hmem : leaf ∈ twoScripts.leaves := List.mem_flatMap.mpr ⟨root, hroot, hleaf⟩
    simp only [hleaves, List.mem_cons, List.not_mem_nil, or_false] at hmem
    rcases hmem with rfl | rfl | rfl | rfl
    · exact hsingle "f" (by decide) (by decide)
    · exact hsingle "g" (by decide) (by decide)
    · exact hempty _
    · exact hempty _

end Sample

namespace FunctionTree

theorem addressed_lookup_twoScripts : Sample.twoScripts.Addressed ∧
    Sample.twoScripts.find? "/a.js/f/g" = some Sample.innermost ∧
    Sample.twoScripts.find? "/b.js/g" = none ∧
    Sample.twoScripts.dependencies Sample.innermost = [Sample.outermost] := by
  obtain ⟨-, hfound, hnone, -, hdependencies⟩ := addressed_lookup Sample.twoScripts_addressed
  refine ⟨Sample.twoScripts_addressed, (hfound _ _).mpr ⟨?_, by decide⟩, (hnone _).mpr ?_, ?_⟩
  · exact List.mem_flatMap.mpr ⟨_, List.mem_cons_self,
      Leaf.mem_walk_of_child List.mem_cons_self (Leaf.mem_walk_of_child List.mem_cons_self
        (Leaf.self_mem_walk _))⟩
  · decide
  · exact hdependencies _ List.mem_cons_self _ _ ((Leaf.Within.root.child List.mem_cons_self).child
      List.mem_cons_self)

end FunctionTree
end PageProbe
