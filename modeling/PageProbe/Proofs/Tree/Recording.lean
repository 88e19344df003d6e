import PageProbe.Proofs.Tree.Usage

namespace PageProbe

/-- A record as it is before a path is found for it. -/
def UsedFunction.unresolved (u : UsedFunction) : UsedFunction := { u with path := none }

namespace Leaf

theorem record_eq (c : CallSite) (leaf : Leaf) :
    record c leaf =
      match recordBelow c leaf.children with
      | some (children, added) => ({ leaf with children := children }, added)
      | none =>
        if leaf.usedFunctions.any (fun u => u.range == c.range) then (leaf, false)
        else ({ leaf with usedFunctions := leaf.usedFunctions ++ [leaf.usedOf c] }, true) := by
  cases leaf with
  | mk paths args range children =>
    cases hbelow : recordBelow c children <;> simp only [record, hbelow]

theorem recordBelow_of_none {c : CallSite} {leaves : List Leaf}
    (h : ∀ l ∈ leaves, l.range.contains c.range = false) : recordBelow c leaves = none := by
  induction leaves with
  | nil => rfl
  | cons l rest ih =>
    rw [recordBelow, h l List.mem_cons_self, ih fun l' hl' => h l' (List.mem_cons_of_mem l hl')]
    rfl

theorem recordBelow_of_first {c : CallSite} {before after : List Leaf} {child : Leaf}
    (hbefore : ∀ l ∈ before, l.range.contains c.range = false)
    (hchild : child.range.contains c.range = true) :
    recordBelow c (before ++ child :: after) =
      some (before ++ (record c child).1 :: after, (record c child).2) := by
  induction before with
  | nil => simp [recordBelow, hchild]
  | cons l rest ih =>
    rw [List.cons_append, recordBelow, hbefore l List.mem_cons_self,
      ih fun l' hl' => hbefore l' (List.mem_cons_of_mem l hl')]
    rfl

/-- The records of a leaf when one more call is recorded in the tree. -/
def recordsAfter (c : CallSite) (leaf : Leaf) : List UsedFunction :=
  leaf.usedFunctions ++ if leaf.innermost c.range then [leaf.usedOf c] else []

theorem withUsed_recordsAfter_of_outside {length : Nat} {c : CallSite} {leaf : Leaf}
    (h : leaf.Placed length) (hc : leaf.range.contains c.range = false) :
    leaf.withUsed (recordsAfter c) = leaf := by
  refine withUsed_self fun l hl => ?_
  rw [recordsAfter, h.not_innermost hc l hl]
  exact List.append_nil _

/-- A new call is recorded on its innermost leaf and nowhere else. -/
theorem record_eq_withUsed {length : Nat} {c : CallSite} {leaf : Leaf} (h : leaf.Placed length)
    (hbytes : c.range.start < c.range.stop) (hinside : leaf.range.contains c.range = true)
    (hnew : ∀ l ∈ leaf.walk, ∀ u ∈ l.usedFunctions, u.range ≠ c.range) :
    record c leaf = (leaf.withUsed (recordsAfter c), true) := by
  induction leaf using induction_children with
  | step leaf ih =>
    rw [record_eq]
    rcases h.child_cases hbytes with hnone | ⟨before, child, after, hsplit, hchild, hothers⟩
    · have hinner : leaf.innermost c.range = true := by
        rw [innermost, hinside, Bool.true_and, List.all_eq_true]
        intro l hl
        rw [hnone l hl]
        rfl
      have hfresh : leaf.usedFunctions.any (fun u => u.range == c.range) = false := by
        rw [List.any_eq_false]
        intro u hu
        simpa using hnew leaf leaf.self_mem_walk u hu
      have hchildren : leaf.children.map (withUsed (recordsAfter c)) = leaf.children.map id :=
        List.map_congr_left fun l hl => withUsed_recordsAfter_of_outside (h.children l hl) (hnone l hl)
      rw [recordBelow_of_none hnone, withUsed_eq, hchildren, List.map_id, recordsAfter, hinner]
      simp only [hfresh, Bool.false_eq_true, if_false, if_true]
    · have hmem : child ∈ leaf.children := by simp [hsplit]
      have hinner : leaf.innermost c.range = false := by
        rw [innermost, Bool.and_eq_false_iff, List.all_eq_false]
        exact .inr ⟨child, hmem, by simp [hchild]⟩
      have hrecord := ih child hmem (h.children child hmem) hchild fun l hl =>
        hnew l (mem_walk_of_child hmem hl)
      have hunchanged (ls : List Leaf) (hls : ∀ l ∈ ls, l ∈ before ++ after) :
          ls.map (withUsed (recordsAfter c)) = ls.map id := by
        refine List.map_congr_left fun l hl => ?_
        have hl' : l ∈ leaf.children := by
          have := hls l hl
          simp only [hsplit, List.mem_append, List.mem_cons] at this ⊢
          tauto
        exact withUsed_recordsAfter_of_outside (h.children l hl') (hothers l (hls l hl))
      rw [withUsed_eq, hsplit, recordBelow_of_first (fun l hl => hothers l (by simp [hl])) hchild, hrecord,
        List.map_append, List.map_cons, hunchanged before (by simp +contextual),
        hunchanged after (by simp +contextual), recordsAfter, hinner]
      simp only [List.map_id, Bool.false_eq_true, if_false, List.append_nil]

/-- The records that a list of calls leaves on a leaf. -/
def recordsOf (calls : List CallSite) (leaf : Leaf) : List UsedFunction :=
  leaf.usedFunctions ++ (calls.filter fun c => leaf.innermost c.range).map leaf.usedOf

theorem range_usedOf (leaf : Leaf) (c : CallSite) : (leaf.usedOf c).range = c.range := rfl

theorem recordsAfter_ranges {c : CallSite} {leaf : Leaf} {u : UsedFunction}
    (hu : u ∈ recordsAfter c leaf) : u ∈ leaf.usedFunctions ∨ u.range = c.range := by
  rw [recordsAfter] at hu
  rcases List.mem_append.mp hu with hu | hu
  · exact .inl hu
  · split at hu
    · rw [List.mem_singleton.mp hu]
      exact .inr rfl
    · cases hu

theorem recordsOf_cons (c : CallSite) (calls : List CallSite) (leaf : Leaf) :
    recordsOf calls (leaf.withUsed (recordsAfter c)) = recordsOf (c :: calls) leaf := by
  rw [recordsOf, recordsOf, withUsed_usedFunctions, recordsAfter, List.filter_cons]
  cases leaf.innermost c.range <;> simp

/-- New calls at different places inside of a root are all recorded. -/
theorem foldl_recordStep {length : Nat} {root : Leaf} {calls : List CallSite} (h : root.Placed length)
    (hbytes : ∀ c ∈ calls, c.range.start < c.range.stop)
    (hinside : ∀ c ∈ calls, root.range.contains c.range = true)
    (hdistinct : calls.Pairwise fun c c' => c.range ≠ c'.range)
    (hnew : ∀ c ∈ calls, ∀ l ∈ root.walk, ∀ u ∈ l.usedFunctions, u.range ≠ c.range)
    (stats : ResolutionStats) :
    calls.foldl recordStep (root, stats) =
      (root.withUsed (recordsOf calls), { stats with attributed := stats.attributed + calls.length }) := by
  induction calls generalizing root stats with
  | nil =>
    rw [List.foldl_nil, withUsed_self fun l _ => by simp [recordsOf]]
    rfl
  | cons c rest ih =>
    obtain ⟨hfirst, hrest⟩ := List.pairwise_cons.mp hdistinct
    have hc := hinside c List.mem_cons_self
    have hrecord := record_eq_withUsed h (hbytes c List.mem_cons_self) hc (hnew c List.mem_cons_self)
    have hstep : recordStep (root, stats) c =
        (root.withUsed (recordsAfter c), { stats with attributed := stats.attributed + 1 }) := by
      simp only [recordStep, hc, hrecord, if_true]
    have hfresh : ∀ c' ∈ rest, ∀ l ∈ (root.withUsed (recordsAfter c)).walk, ∀ u ∈ l.usedFunctions,
        u.range ≠ c'.range := by
      intro c' hc' l hl u hu
      rw [walk_withUsed] at hl
      obtain ⟨before, hbefore, rfl⟩ := List.mem_map.mp hl
      rw [withUsed_usedFunctions] at hu
      rcases recordsAfter_ranges hu with hu | hu
      · exact hnew c' (List.mem_cons_of_mem c hc') before hbefore u hu
      · rw [hu]
        exact hfirst c' hc'
    rw [List.foldl_cons, hstep, ih (h.withUsed _) (fun c' hc' => hbytes c' (List.mem_cons_of_mem c hc'))
      (fun c' hc' => by rw [withUsed_range]; exact hinside c' (List.mem_cons_of_mem c hc')) hrest hfresh,
      withUsed_withUsed, withUsed_congr fun l _ => recordsOf_cons c rest l, List.length_cons]
    simp only [Nat.add_assoc, Nat.add_comm 1]

/-- Every record of a leaf and of the leaves below it meets a condition, which may ask what its leaf
    records for a call. -/
def Records (p : (CallSite → UsedFunction) → UsedFunction → Prop) (leaf : Leaf) : Prop :=
  ∀ l ∈ leaf.walk, ∀ u ∈ l.usedFunctions, p l.usedOf u

section
variable {p : (CallSite → UsedFunction) → UsedFunction → Prop}

theorem records_iff {leaf : Leaf} :
    leaf.Records p ↔
      (∀ u ∈ leaf.usedFunctions, p leaf.usedOf u) ∧ ∀ child ∈ leaf.children, child.Records p := by
  simp only [Records, walk_eq leaf, List.forall_mem_cons, List.mem_flatMap]
  refine and_congr_right fun _ => ⟨fun h child hchild l hl => h l ⟨child, hchild, hl⟩, ?_⟩
  rintro h l ⟨child, hchild, hl⟩
  exact h child hchild l hl

mutual
/-- A condition that new records meet is met after a call is recorded. -/
theorem Records.record {c : CallSite} (hc : ∀ l : Leaf, p l.usedOf (l.usedOf c)) : (leaf : Leaf) →
    leaf.Records p → (record c leaf).1.Records p
  | ⟨paths, args, range, children, used, holder, source, declarationEnd, anonymousEnd⟩, h => by
    obtain ⟨hused, hchildren⟩ := records_iff.mp h
    rw [Leaf.record]
    cases hbelow : Leaf.recordBelow c children with
    | some below => exact records_iff.mpr ⟨hused, Records.recordBelow hc children hchildren hbelow⟩
    | none =>
      dsimp only
      split
      · exact h
      · refine records_iff.mpr ⟨fun u hu => ?_, hchildren⟩
        rcases List.mem_append.mp hu with hu | hu
        · exact hused u hu
        · obtain rfl := List.mem_singleton.mp hu
          exact hc _

theorem Records.recordBelow {c : CallSite} (hc : ∀ l : Leaf, p l.usedOf (l.usedOf c)) :
    (leaves : List Leaf) → (∀ leaf ∈ leaves, leaf.Records p) → {below : List Leaf × Bool} →
    recordBelow c leaves = some below → ∀ leaf ∈ below.1, leaf.Records p
  | [], _, _, h => by cases h
  | leaf :: rest, h, below, hbelow => by
    obtain ⟨hleaf, hrest⟩ := List.forall_mem_cons.mp h
    rw [Leaf.recordBelow] at hbelow
    split at hbelow
    · obtain rfl := Option.some.inj hbelow
      exact List.forall_mem_cons.mpr ⟨Records.record hc leaf hleaf, hrest⟩
    · obtain ⟨below', hbelow', rfl⟩ := Option.map_eq_some_iff.mp hbelow
      exact List.forall_mem_cons.mpr ⟨hleaf, Records.recordBelow hc rest hrest hbelow'⟩
end

theorem Records.foldl_recordStep (calls : List CallSite)
    (hcalls : ∀ c ∈ calls, ∀ l : Leaf, p l.usedOf (l.usedOf c)) (state : Leaf × ResolutionStats)
    (h : state.1.Records p) : (calls.foldl recordStep state).1.Records p := by
  induction calls generalizing state with
  | nil => exact h
  | cons c calls ih =>
    obtain ⟨hc, hcalls⟩ := List.forall_mem_cons.mp hcalls
    refine ih hcalls _ ?_
    rw [recordStep]
    split
    · exact Records.record hc state.1 h
    · exact h

end

end Leaf

namespace FunctionTree

mutual
/-- Resolution changes records only. -/
theorem resolveLeaf_eq (tree : FunctionTree) : (leaf : Leaf) →
    (tree.resolveLeaf leaf).1 =
      leaf.withUsed fun l => l.usedFunctions.map (tree.resolveUsed (l.nestedDegree + 1))
  | ⟨_, _, _, children, _, _, _, _, _⟩ => by
    rw [resolveLeaf, Leaf.withUsed, ← resolveLeaves_eq tree children]

theorem resolveLeaves_eq (tree : FunctionTree) : (leaves : List Leaf) →
    (tree.resolveLeaves leaves).1 =
      Leaf.withUsedAll (fun l => l.usedFunctions.map (tree.resolveUsed (l.nestedDegree + 1))) leaves
  | [] => rfl
  | leaf :: rest => by
    rw [resolveLeaves, Leaf.withUsedAll, ← resolveLeaf_eq tree leaf, ← resolveLeaves_eq tree rest]
end

theorem resolveUsed_unresolved (tree : FunctionTree) (limit : Nat) (u : UsedFunction) :
    (tree.resolveUsed limit u).unresolved = u.unresolved := by
  rw [resolveUsed]
  split <;> rfl

end FunctionTree
end PageProbe
