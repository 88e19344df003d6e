import Mathlib.Algebra.BigOperators.Group.List.Basic
import PageProbe.Proofs.Tree.Containment
import PageProbe.Tree.Resolution

/-!
Recording and resolving calls replaces the records of every leaf of a tree and leaves the rest of the
tree alone. Both are seen here as one change of all leaves at once, told by what the records of a leaf
become.
-/

namespace PageProbe
namespace Leaf

theorem sizeOf_lt_of_mem_children {leaf c : Leaf} (h : c ∈ leaf.children) : sizeOf c < sizeOf leaf := by
  cases leaf with
  | mk paths args range children =>
    have hlt : sizeOf c < sizeOf children := List.sizeOf_lt_of_mem h
    simp only [mk.sizeOf_spec]
    omega

/-- A leaf has a property if every leaf has it whose children have it. -/
theorem induction_children {motive : Leaf → Prop}
    (step : ∀ leaf, (∀ c ∈ leaf.children, motive c) → motive leaf) (leaf : Leaf) : motive leaf :=
  step leaf fun c _ => induction_children step c
termination_by sizeOf leaf
decreasing_by exact sizeOf_lt_of_mem_children ‹_›

theorem self_mem_walk (leaf : Leaf) : leaf ∈ leaf.walk := by
  rw [walk_eq]
  exact List.mem_cons_self

theorem mem_walk_of_child {leaf c l : Leaf} (hc : c ∈ leaf.children) (hl : l ∈ c.walk) :
    l ∈ leaf.walk := by
  rw [walk_eq]
  exact List.mem_cons_of_mem leaf (List.mem_flatMap.mpr ⟨c, hc, hl⟩)

theorem mem_walk_trans {leaf l l' : Leaf} (h : l ∈ leaf.walk) (h' : l' ∈ l.walk) : l' ∈ leaf.walk := by
  induction leaf using induction_children with
  | step leaf ih =>
    rw [walk_eq] at h
    rcases List.mem_cons.mp h with rfl | h
    · exact h'
    · obtain ⟨c, hc, h⟩ := List.mem_flatMap.mp h
      exact mem_walk_of_child hc (ih c hc h)

theorem mem_walkAll_trans {leaves : List Leaf} {l l' : Leaf} (h : l ∈ walkAll leaves)
    (h' : l' ∈ walkAll l.children) : l' ∈ walkAll leaves := by
  rw [walkAll_eq] at h h' ⊢
  obtain ⟨leaf, hleaf, h⟩ := List.mem_flatMap.mp h
  exact List.mem_flatMap.mpr ⟨leaf, hleaf, mem_walk_trans h (walk_eq l ▸ List.mem_cons_of_mem l h')⟩

mutual
/-- A leaf in which the records of all leaves are replaced. -/
def withUsed (f : Leaf → List UsedFunction) : Leaf → Leaf
  | leaf@{ children := children, .. } =>
    { leaf with usedFunctions := f leaf, children := withUsedAll f children }

def withUsedAll (f : Leaf → List UsedFunction) : List Leaf → List Leaf
  | [] => []
  | c :: cs => withUsed f c :: withUsedAll f cs
end

section
variable {f g : Leaf → List UsedFunction}

theorem withUsedAll_eq (f : Leaf → List UsedFunction) (leaves : List Leaf) :
    withUsedAll f leaves = leaves.map (withUsed f) := by
  induction leaves with
  | nil => rfl
  | cons leaf rest ih => rw [withUsedAll, ih, List.map_cons]

theorem withUsed_eq (f : Leaf → List UsedFunction) (leaf : Leaf) :
    leaf.withUsed f =
      { leaf with usedFunctions := f leaf, children := leaf.children.map (withUsed f) } := by
  cases leaf
  rw [withUsed, withUsedAll_eq]

@[simp] theorem withUsed_usedFunctions (leaf : Leaf) : (leaf.withUsed f).usedFunctions = f leaf := by
  rw [withUsed_eq]

@[simp] theorem withUsed_children (leaf : Leaf) :
    (leaf.withUsed f).children = leaf.children.map (withUsed f) := by
  rw [withUsed_eq]

@[simp] theorem withUsed_paths (leaf : Leaf) : (leaf.withUsed f).paths = leaf.paths := by
  rw [withUsed_eq]

@[simp] theorem withUsed_range (leaf : Leaf) : (leaf.withUsed f).range = leaf.range := by
  rw [withUsed_eq]

@[simp] theorem withUsed_fromObject (leaf : Leaf) : (leaf.withUsed f).fromObject = leaf.fromObject := by
  rw [withUsed_eq]

@[simp] theorem withUsed_path (leaf : Leaf) : (leaf.withUsed f).path = leaf.path := by
  rw [path, path, withUsed_paths]

@[simp] theorem withUsed_nestedDegree (leaf : Leaf) :
    (leaf.withUsed f).nestedDegree = leaf.nestedDegree := by
  rw [nestedDegree, nestedDegree, withUsed_path]

@[simp] theorem withUsed_injectionPoint (leaf : Leaf) :
    (leaf.withUsed f).injectionPoint = leaf.injectionPoint := by
  rw [withUsed_eq]
  rfl

@[simp] theorem withUsed_usedOf (leaf : Leaf) : (leaf.withUsed f).usedOf = leaf.usedOf := by
  funext c
  cases hcallee : c.callee <;> simp [usedOf, nameOf, name, hcallee]

theorem walk_withUsed (f : Leaf → List UsedFunction) (leaf : Leaf) :
    (leaf.withUsed f).walk = leaf.walk.map (withUsed f) := by
  induction leaf using induction_children with
  | step leaf ih =>
    rw [walk_eq, walk_eq leaf, withUsed_children, List.map_cons, List.flatMap_map, List.map_flatMap]
    exact congrArg _ (List.flatMap_congr ih)

theorem withUsed_withUsed (f g : Leaf → List UsedFunction) (leaf : Leaf) :
    (leaf.withUsed f).withUsed g = leaf.withUsed fun l => g (l.withUsed f) := by
  induction leaf using induction_children with
  | step leaf ih =>
    have hchildren : leaf.children.map (withUsed g ∘ withUsed f) =
        leaf.children.map (withUsed fun l => g (l.withUsed f)) := List.map_congr_left ih
    rw [withUsed_eq g, withUsed_eq (fun l => g (l.withUsed f)), withUsed_children, List.map_map, hchildren,
      withUsed_eq f leaf]

theorem withUsed_congr {leaf : Leaf} (h : ∀ l ∈ leaf.walk, f l = g l) :
    leaf.withUsed f = leaf.withUsed g := by
  induction leaf using induction_children with
  | step leaf ih =>
    rw [withUsed_eq f, withUsed_eq g, h leaf leaf.self_mem_walk,
      List.map_congr_left fun c hc => ih c hc fun l hl => h l (mem_walk_of_child hc hl)]

theorem withUsed_self {leaf : Leaf} (h : ∀ l ∈ leaf.walk, f l = l.usedFunctions) :
    leaf.withUsed f = leaf := by
  induction leaf using induction_children with
  | step leaf ih =>
    have hchildren : leaf.children.map (withUsed f) = leaf.children.map id :=
      List.map_congr_left fun c hc => ih c hc fun l hl => h l (mem_walk_of_child hc hl)
    rw [withUsed_eq, h leaf leaf.self_mem_walk, hchildren, List.map_id]
    cases leaf
    rfl

end

/-- A leaf without its records and those of the leaves below it. -/
def bare (leaf : Leaf) : Leaf := leaf.withUsed fun _ => []

theorem bare_withUsed (f : Leaf → List UsedFunction) (leaf : Leaf) : (leaf.withUsed f).bare = leaf.bare :=
  withUsed_withUsed f _ leaf

theorem bare_of_unused {leaf : Leaf} (h : ∀ l ∈ leaf.walk, l.usedFunctions = []) : leaf.bare = leaf :=
  withUsed_self fun l hl => (h l hl).symm

/-- Whether a leaf contains a span that none of its children contains. -/
def innermost (leaf : Leaf) (r : Span) : Bool :=
  leaf.range.contains r && leaf.children.all fun c => !c.range.contains r

@[simp] theorem withUsed_innermost (f : Leaf → List UsedFunction) (leaf : Leaf) (r : Span) :
    (leaf.withUsed f).innermost r = leaf.innermost r := by
  simp [innermost, Function.comp_def]

theorem contains_of_innermost {leaf : Leaf} {r : Span} (h : leaf.innermost r = true) :
    leaf.range.contains r = true := by
  rw [innermost, Bool.and_eq_true] at h
  exact h.1

theorem Placed.withUsed {length : Nat} {leaf : Leaf} (h : leaf.Placed length)
    (f : Leaf → List UsedFunction) : (leaf.withUsed f).Placed length := by
  induction h with
  | @intro leaf hinside hapart hbehind hwithin hchildren ih =>
    refine .intro ?_ ?_ ?_ ?_ ?_
    · simpa using hinside
    · simpa [List.pairwise_map] using hapart
    · simpa using hbehind
    · simpa using hwithin
    · simpa using ih

theorem Placed.children {length : Nat} {leaf : Leaf} (h : leaf.Placed length) :
    ∀ c ∈ leaf.children, c.Placed length := by
  cases h with
  | intro _ _ _ _ hchildren => exact hchildren

/-- Every leaf lies inside of the leaves around it. -/
theorem Placed.walk_inside {length : Nat} {leaf : Leaf} (h : leaf.Placed length) :
    ∀ l ∈ leaf.walk, leaf.range.contains l.range = true := by
  induction h with
  | @intro leaf hinside hapart hbehind hwithin hchildren ih =>
    intro l hl
    rw [walk_eq] at hl
    rcases List.mem_cons.mp hl with rfl | hl
    · exact Span.contains_refl _
    · obtain ⟨c, hc, hl⟩ := List.mem_flatMap.mp hl
      exact Span.contains_trans (hinside c hc) (ih c hc l hl)

theorem Placed.not_innermost {length : Nat} {leaf : Leaf} {r : Span} (h : leaf.Placed length)
    (hr : leaf.range.contains r = false) : ∀ l ∈ leaf.walk, l.innermost r = false := by
  intro l hl
  by_contra hinner
  have hcontains := Span.contains_trans (h.walk_inside l hl)
    (contains_of_innermost (eq_true_of_ne_false hinner))
  rw [hr] at hcontains
  cases hcontains

/-- A span that holds a byte lies in one of several leaves at most that do not overlap. -/
theorem not_contains_of_apart {c c' : Leaf} {r : Span} (hapart : c.range.overlaps c'.range = false)
    (hbytes : r.start < r.stop) (hr : c.range.contains r = true) : c'.range.contains r = false := by
  by_contra hr'
  have hc := (Span.contains_iff _ _).mp hr
  have hc' := (Span.contains_iff _ _).mp (eq_true_of_ne_false hr')
  have hends := (Span.overlaps_eq_false_iff _ _).mp hapart
  omega

/-- The children of a placed leaf in which a span lies: none, or one among others that it is not in. -/
theorem Placed.child_cases {length : Nat} {leaf : Leaf} {r : Span} (h : leaf.Placed length)
    (hbytes : r.start < r.stop) :
    (∀ c ∈ leaf.children, c.range.contains r = false) ∨
    ∃ before c after, leaf.children = before ++ c :: after ∧ c.range.contains r = true ∧
      ∀ c' ∈ before ++ after, c'.range.contains r = false := by
  cases h with
  | intro _ hapart _ _ _ =>
    by_cases hex : ∃ c ∈ leaf.children, c.range.contains r = true
    · obtain ⟨c, hc, hr⟩ := hex
      obtain ⟨before, after, hsplit⟩ := List.append_of_mem hc
      rw [hsplit, List.pairwise_append, List.pairwise_cons] at hapart
      obtain ⟨_, ⟨hafter, _⟩, hcross⟩ := hapart
      refine .inr ⟨before, c, after, hsplit, hr, fun c' hc' => ?_⟩
      rcases List.mem_append.mp hc' with hc' | hc'
      · have hcc' := hcross c' hc' c List.mem_cons_self
        rw [Span.overlaps_eq_false_iff, or_comm, ← Span.overlaps_eq_false_iff] at hcc'
        exact not_contains_of_apart hcc' hbytes hr
      · exact not_contains_of_apart (hafter c' hc') hbytes hr
    · refine .inl fun c hc => ?_
      by_contra hr
      exact hex ⟨c, hc, eq_true_of_ne_false hr⟩

/-- A span that holds a byte has one innermost leaf below a leaf that contains it. -/
theorem Placed.countP_innermost {length : Nat} {leaf : Leaf} {r : Span} (h : leaf.Placed length)
    (hbytes : r.start < r.stop) (hr : leaf.range.contains r = true) :
    leaf.walk.countP (·.innermost r) = 1 := by
  induction leaf using induction_children with
  | step leaf ih =>
    have hnone : ∀ c ∈ leaf.children, c.range.contains r = false → c.walk.countP (·.innermost r) = 0 := by
      intro c hc hcr
      refine List.countP_eq_zero.mpr fun l hl => ?_
      rw [(h.children c hc).not_innermost hcr l hl]
      exact Bool.false_ne_true
    rw [walk_eq, List.countP_cons, List.countP_flatMap]
    rcases h.child_cases hbytes with hall | ⟨before, c, after, hsplit, hcr, hothers⟩
    · have hself : leaf.innermost r = true := by
        rw [innermost, hr, Bool.true_and, List.all_eq_true]
        intro c hc
        rw [hall c hc]
        rfl
      rw [List.sum_eq_zero, if_pos hself]
      intro n hn
      obtain ⟨c, hc, rfl⟩ := List.mem_map.mp hn
      exact hnone c hc (hall c hc)
    · have hc : c ∈ leaf.children := by simp [hsplit]
      have hself : leaf.innermost r = false := by
        rw [innermost, Bool.and_eq_false_iff, List.all_eq_false]
        exact .inr ⟨c, hc, by simp [hcr]⟩
      have hzero (cs : List Leaf) (hcs : ∀ c' ∈ cs, c' ∈ before ++ after) :
          (cs.map fun c' => c'.walk.countP (·.innermost r)).sum = 0 := by
        refine List.sum_eq_zero fun n hn => ?_
        obtain ⟨c', hc', rfl⟩ := List.mem_map.mp hn
        have hchild : c' ∈ leaf.children := by
          rw [hsplit]
          have := hcs c' hc'
          simp only [List.mem_append, List.mem_cons] at this ⊢
          tauto
        exact hnone c' hchild (hothers c' (hcs c' hc'))
      have hone := ih c hc (h.children c hc) hcr
      rw [hsplit, List.map_append, List.map_cons, List.sum_append, List.sum_cons]
      simp only [Function.comp_def]
      rw [hzero before (by simp +contextual), hzero after (by simp +contextual), hone, hself]
      rfl

end Leaf
end PageProbe
