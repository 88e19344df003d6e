import PageProbe.Proofs.Tree.Lookup

namespace PageProbe
namespace Leaf

mutual
/-- Whether the leaf that a range belongs on, below and including a leaf, has a record of the range. -/
def isRecorded (r : Span) : Leaf → Bool
  | leaf@{ children := children, .. } =>
    (isRecordedBelow? r children).getD (leaf.usedFunctions.any fun u => u.range == r)

/-- The same below the first leaf that contains the range, if there is one. -/
def isRecordedBelow? (r : Span) : List Leaf → Option Bool
  | [] => none
  | c :: rest => if c.range.contains r then some (isRecorded r c) else isRecordedBelow? r rest
end

theorem isRecorded_eq (r : Span) (leaf : Leaf) :
    leaf.isRecorded r =
      (isRecordedBelow? r leaf.children).getD (leaf.usedFunctions.any fun u => u.range == r) := by
  cases leaf
  rw [isRecorded]

theorem isRecordedBelow?_eq_none_iff {r : Span} {leaves : List Leaf} :
    isRecordedBelow? r leaves = none ↔ ∀ l ∈ leaves, l.range.contains r = false := by
  induction leaves with
  | nil => simp [isRecordedBelow?]
  | cons leaf rest ih =>
    rw [isRecordedBelow?, List.forall_mem_cons]
    cases hleaf : leaf.range.contains r <;> simp [ih]

theorem recordBelow_eq_none_iff {c : CallSite} {leaves : List Leaf} :
    recordBelow c leaves = none ↔ ∀ l ∈ leaves, l.range.contains c.range = false := by
  refine ⟨fun h => ?_, recordBelow_of_none⟩
  induction leaves with
  | nil => simp
  | cons leaf rest ih =>
    rw [recordBelow] at h
    split at h
    · cases h
    · next hleaf =>
      exact List.forall_mem_cons.mpr ⟨eq_false_of_ne_true hleaf, ih (Option.map_eq_none_iff.mp h)⟩

theorem record_range (c : CallSite) (leaf : Leaf) : (record c leaf).1.range = leaf.range := by
  rw [← withUsed_range (f := fun _ => []), ← withUsed_range (f := fun _ => []) leaf]
  exact congrArg range (record_bare c leaf)

mutual
/-- A call whose range is recorded is not recorded again. -/
theorem record_of_isRecorded (c : CallSite) : (leaf : Leaf) → leaf.isRecorded c.range = true →
    record c leaf = (leaf, false)
  | ⟨paths, args, range, children, used, holder, source, declarationEnd, anonymousEnd⟩, h => by
    rw [isRecorded_eq] at h
    rw [record]
    cases hbelow : isRecordedBelow? c.range children with
    | none =>
      have hnone := recordBelow_eq_none_iff.mpr (isRecordedBelow?_eq_none_iff.mp hbelow)
      simp only [hbelow, Option.getD_none] at h
      simp only [hnone, h, if_true]
    | some recorded =>
      simp only [hbelow, Option.getD_some] at h
      simp only [recordBelow_of_isRecorded c children (h ▸ hbelow)]

theorem recordBelow_of_isRecorded (c : CallSite) : (leaves : List Leaf) →
    isRecordedBelow? c.range leaves = some true → recordBelow c leaves = some (leaves, false)
  | [], h => nomatch h
  | leaf :: rest, h => by
    rw [isRecordedBelow?] at h
    rw [recordBelow]
    split
    · next hleaf =>
      rw [if_pos hleaf] at h
      simp only [record_of_isRecorded c leaf (Option.some.inj h)]
    · next hleaf =>
      rw [if_neg hleaf] at h
      simp only [recordBelow_of_isRecorded c rest h, Option.map_some]
end

/-- A place is not the range of a call when a leaf contains one and not the other. -/
theorem range_beq_eq_false {leaf : Leaf} {c : CallSite} {r : Span}
    (h : leaf.range.contains c.range ≠ leaf.range.contains r) : (c.range == r) = false := by
  rw [beq_eq_false_iff_ne]
  rintro rfl
  exact h rfl

mutual
/-- Recording a call makes its range recorded, and no other. -/
theorem isRecorded_record (r : Span) (c : CallSite) : (leaf : Leaf) →
    (record c leaf).1.isRecorded r = (leaf.isRecorded r || c.range == r)
  | ⟨paths, args, range, children, used, holder, source, declarationEnd, anonymousEnd⟩ => by
    have hsame (hr : c.range == r) : isRecordedBelow? r children = none ↔ recordBelow c children = none := by
      rw [isRecordedBelow?_eq_none_iff, recordBelow_eq_none_iff, eq_of_beq hr]
    rw [record]
    cases hbelow : recordBelow c children with
    | none =>
      simp only [hbelow, iff_true] at hsame
      dsimp only
      split
      · next hany =>
        cases hr : c.range == r with
        | false => rw [Bool.or_false]
        | true =>
          rw [isRecorded_eq, hsame hr, Option.getD_none, Bool.or_true, ← eq_of_beq hr]
          exact hany
      · simp only [isRecorded_eq, List.any_append, List.any_cons, List.any_nil, Bool.or_false, range_usedOf]
        cases hrecorded : isRecordedBelow? r children with
        | none => rfl
        | some recorded =>
          have hr : (c.range == r) = false := by
            by_contra hr
            rw [hsame (eq_true_of_ne_false hr)] at hrecorded
            cases hrecorded
          rw [hr]
          exact (Bool.or_false _).symm
    | some below =>
      rw [isRecorded_eq, isRecorded_eq, isRecordedBelow?_record r c children below hbelow]
      cases hrecorded : isRecordedBelow? r children with
      | some recorded => rfl
      | none =>
        have hr : (c.range == r) = false := by
          by_contra hr
          rw [(hsame (eq_true_of_ne_false hr)).mp hrecorded] at hbelow
          cases hbelow
        rw [hr, Bool.or_false]
        rfl

theorem isRecordedBelow?_record (r : Span) (c : CallSite) : (leaves : List Leaf) →
    (below : List Leaf × Bool) → recordBelow c leaves = some below →
    isRecordedBelow? r below.1 = (isRecordedBelow? r leaves).map (· || c.range == r)
  | [], _, h => nomatch h
  | leaf :: rest, below, h => by
    rw [recordBelow] at h
    split at h
    · next hleaf =>
      cases h
      rw [isRecordedBelow?, isRecordedBelow?, record_range, isRecorded_record r c leaf]
      split
      · rfl
      · next hr =>
        rw [range_beq_eq_false (by rw [hleaf]; exact Ne.symm hr)]
        simp
    · next hleaf =>
      obtain ⟨more, hmore, rfl⟩ := Option.map_eq_some_iff.mp h
      rw [isRecordedBelow?, isRecordedBelow?, isRecordedBelow?_record r c rest more hmore]
      split
      · next hr =>
        rw [Option.map_some, range_beq_eq_false (by rw [hr]; exact hleaf), Bool.or_false]
      · rfl
end

mutual
/-- What is recorded depends on the ranges of the records only. -/
theorem isRecorded_withUsed (r : Span) {f : Leaf → List UsedFunction}
    (hf : ∀ l, (f l).map (·.range) = l.usedFunctions.map (·.range)) : (leaf : Leaf) →
    (leaf.withUsed f).isRecorded r = leaf.isRecorded r
  | ⟨paths, args, range, children, used, holder, source, declarationEnd, anonymousEnd⟩ => by
    have hany (us : List UsedFunction) :
        (us.any fun u => u.range == r) = (us.map (·.range)).any (· == r) := by
      rw [List.any_map]
      rfl
    rw [isRecorded_eq, isRecorded_eq, withUsed_children, withUsed_usedFunctions, hany, hany, hf,
      isRecordedBelow?_withUsed r hf children]

theorem isRecordedBelow?_withUsed (r : Span) {f : Leaf → List UsedFunction}
    (hf : ∀ l, (f l).map (·.range) = l.usedFunctions.map (·.range)) : (leaves : List Leaf) →
    isRecordedBelow? r (leaves.map (withUsed f)) = isRecordedBelow? r leaves
  | [] => rfl
  | leaf :: rest => by
    rw [List.map_cons, isRecordedBelow?, isRecordedBelow?, withUsed_range, isRecorded_withUsed r hf leaf,
      isRecordedBelow?_withUsed r hf rest]
end

theorem recordStep_range (state : Leaf × ResolutionStats) (c : CallSite) :
    (recordStep state c).1.range = state.1.range := by
  rw [recordStep]
  split
  · exact record_range c state.1
  · rfl

theorem foldl_recordStep_range (calls : List CallSite) (state : Leaf × ResolutionStats) :
    (calls.foldl recordStep state).1.range = state.1.range := by
  induction calls generalizing state with
  | nil => rfl
  | cons c rest ih => rw [List.foldl_cons, ih, recordStep_range]

theorem isRecorded_recordStep (r : Span) (state : Leaf × ResolutionStats) (c : CallSite) :
    (recordStep state c).1.isRecorded r =
      (state.1.isRecorded r || (state.1.range.contains c.range && c.range == r)) := by
  rw [recordStep]
  split
  · next hinside =>
    rw [hinside, Bool.true_and]
    exact isRecorded_record r c state.1
  · next hinside =>
    rw [eq_false_of_ne_true hinside, Bool.false_and, Bool.or_false]

/-- After a pass the ranges of its calls inside of the root are recorded, with those that were before. -/
theorem isRecorded_foldl_recordStep (r : Span) (calls : List CallSite) (state : Leaf × ResolutionStats) :
    (calls.foldl recordStep state).1.isRecorded r =
      (state.1.isRecorded r || calls.any fun c => state.1.range.contains c.range && c.range == r) := by
  induction calls generalizing state with
  | nil => exact (Bool.or_false _).symm
  | cons c rest ih =>
    rw [List.foldl_cons, ih, recordStep_range, isRecorded_recordStep, List.any_cons, Bool.or_assoc]

theorem foldl_recordStep_unattributed (calls : List CallSite) (state : Leaf × ResolutionStats) :
    (calls.foldl recordStep state).2.unattributed =
      state.2.unattributed + calls.countP fun c => !state.1.range.contains c.range := by
  induction calls generalizing state with
  | nil => rfl
  | cons c rest ih =>
    rw [List.foldl_cons, ih, recordStep_range, List.countP_cons, recordStep]
    cases hinside : state.1.range.contains c.range with
    | true =>
      simp only [if_true]
      split <;> simp
    | false =>
      simp only [Bool.false_eq_true, if_false, Bool.not_false, if_true]
      omega

/-- A pass over calls that are recorded, or lie outside of the root, only counts the latter. -/
theorem foldl_recordStep_of_isRecorded {root : Leaf} {calls : List CallSite}
    (h : ∀ c ∈ calls, root.range.contains c.range = true → root.isRecorded c.range = true)
    (stats : ResolutionStats) :
    calls.foldl recordStep (root, stats) = (root, { stats with
      unattributed := stats.unattributed + calls.countP fun c => !root.range.contains c.range }) := by
  induction calls generalizing stats with
  | nil => rfl
  | cons c rest ih =>
    obtain ⟨hc, hrest⟩ := List.forall_mem_cons.mp h
    rw [List.foldl_cons, List.countP_cons, recordStep]
    cases hinside : root.range.contains c.range with
    | true =>
      simp only [record_of_isRecorded c root (hc hinside), if_true]
      exact ih hrest stats
    | false =>
      simp only [Bool.false_eq_true, if_false, Bool.not_false, if_true]
      rw [ih hrest, Nat.add_right_comm, Nat.add_assoc]

/-- A second pass over the same calls only counts what lies outside, also when the records of the first
    pass have been replaced by others of the same ranges. -/
theorem foldl_recordStep_again {root recorded : Leaf} {calls : List CallSite} {stats : ResolutionStats}
    (hrecorded : calls.foldl recordStep (root, ⟨0, 0, 0⟩) = (recorded, stats))
    {f : Leaf → List UsedFunction} (hf : ∀ l, (f l).map (·.range) = l.usedFunctions.map (·.range)) :
    calls.foldl recordStep (recorded.withUsed f, ⟨0, 0, 0⟩) =
      (recorded.withUsed f, ⟨0, 0, stats.unattributed⟩) := by
  have hrange : (recorded.withUsed f).range = root.range := by
    have := foldl_recordStep_range calls (root, ⟨0, 0, 0⟩)
    rw [hrecorded] at this
    rw [withUsed_range, this]
  have hunattributed := foldl_recordStep_unattributed calls (root, ⟨0, 0, 0⟩)
  rw [hrecorded] at hunattributed
  rw [foldl_recordStep_of_isRecorded, hrange, ← hunattributed]
  intro c hc hinside
  have hisRecorded := isRecorded_foldl_recordStep c.range calls (root, ⟨0, 0, 0⟩)
  rw [hrecorded] at hisRecorded
  rw [isRecorded_withUsed c.range hf, hisRecorded, Bool.or_eq_true, List.any_eq_true]
  refine .inr ⟨c, hc, ?_⟩
  rw [← hrange, hinside, beq_self_eq_true]
  rfl

theorem search?_eq (name : String) (limit depth : Nat) (leaf : Leaf) :
    search? name limit depth leaf =
      if leaf.names.contains name then some leaf
      else if limit < depth then none
      else searchAll? name limit (depth + 1) leaf.children := by
  cases leaf
  rw [search?]

theorem bare_children (leaf : Leaf) : leaf.bare.children = leaf.children.map bare := withUsed_children leaf

theorem bare_names (leaf : Leaf) : leaf.bare.names = leaf.names := by
  rw [names, names, bare, withUsed_paths]

theorem searchAll?_map_bare {name : String} {limit depth : Nat} {leaves : List Leaf}
    (h : ∀ c ∈ leaves, search? name limit depth c.bare = (search? name limit depth c).map bare) :
    searchAll? name limit depth (leaves.map bare) = (searchAll? name limit depth leaves).map bare := by
  induction leaves with
  | nil => rfl
  | cons leaf rest ih =>
    obtain ⟨hleaf, hrest⟩ := List.forall_mem_cons.mp h
    rw [List.map_cons, searchAll?, searchAll?, hleaf, ih hrest]
    cases search? name limit depth leaf <;> rfl

/-- Searches do not look at records. -/
theorem search?_bare (name : String) (limit depth : Nat) (leaf : Leaf) :
    search? name limit depth leaf.bare = (search? name limit depth leaf).map bare := by
  induction leaf using induction_children generalizing depth with
  | step leaf ih =>
    have hchildren : searchAll? name limit (depth + 1) leaf.bare.children =
        (searchAll? name limit (depth + 1) leaf.children).map bare := by
      rw [bare_children]
      exact searchAll?_map_bare fun c hc => ih c hc (depth + 1)
    rw [search?_eq, search?_eq, bare_names, hchildren]
    split
    · rfl
    · split <;> rfl

end Leaf

namespace FunctionTree

/-- What a call finds does not depend on the records of the page. -/
theorem findDeclaration?_path {tree tree' : FunctionTree}
    (h : tree'.children.map Leaf.bare = tree.children.map Leaf.bare) (name : String) (limit : Nat) :
    (tree'.findDeclaration? name limit).map Leaf.path = (tree.findDeclaration? name limit).map Leaf.path := by
  have hfound (roots : List Leaf) :
      (roots.findSome? fun root => Leaf.searchAll? name limit 2 root.children).map Leaf.path =
        ((roots.map Leaf.bare).findSome? fun root => Leaf.searchAll? name limit 2 root.children).map
          Leaf.path := by
    have hroot (root : Leaf) : (Leaf.searchAll? name limit 2 root.bare.children).map Leaf.path =
        (Leaf.searchAll? name limit 2 root.children).map Leaf.path := by
      rw [Leaf.bare_children, Leaf.searchAll?_map_bare fun c _ => Leaf.search?_bare name limit 2 c,
        Option.map_map]
      exact congrArg (Option.map · _) (funext Leaf.bare_path)
    rw [List.findSome?_map, List.map_findSome?, List.map_findSome?]
    exact congrArg (List.findSome? · roots) (funext fun root => (hroot root).symm)
  rw [findDeclaration?, findDeclaration?]
  split
  · rfl
  · rw [hfound, h, ← hfound]

theorem resolveUsed_congr {tree tree' : FunctionTree}
    (h : tree'.children.map Leaf.bare = tree.children.map Leaf.bare) (limit : Nat) (u : UsedFunction) :
    tree'.resolveUsed limit u = tree.resolveUsed limit u := by
  rw [resolveUsed, resolveUsed, findDeclaration?_path h]

/-- A record that has been resolved is not resolved again. -/
theorem resolveUsed_resolveUsed (tree : FunctionTree) (limit : Nat) (u : UsedFunction) :
    tree.resolveUsed limit (tree.resolveUsed limit u) = tree.resolveUsed limit u := by
  by_cases h : (u.path.isSome || u.immediatelyInvoked) = true
  · rw [resolveUsed, resolveUsed, if_pos h, if_pos h]
  · have hpass : tree.resolveUsed limit u =
        { u with path := (tree.findDeclaration? u.name limit).map Leaf.path } := by
      rw [resolveUsed, if_neg h]
    rw [hpass, resolveUsed]
    split <;> rfl

theorem newlyResolved_self (used : List UsedFunction) : newlyResolved used used = 0 := by
  rw [newlyResolved, List.zip_eq_zipWith, List.zipWith_self, List.length_eq_zero_iff, List.filter_eq_nil_iff]
  intro pair h
  obtain ⟨u, -, rfl⟩ := List.mem_map.mp h
  cases u.path <;> simp

theorem resolveLeaf_eq_mk (tree : FunctionTree) (leaf : Leaf) :
    tree.resolveLeaf leaf =
      let used := leaf.usedFunctions.map (tree.resolveUsed (leaf.nestedDegree + 1))
      ({ leaf with usedFunctions := used, children := (tree.resolveLeaves leaf.children).1 },
        newlyResolved leaf.usedFunctions used + (tree.resolveLeaves leaf.children).2) := by
  cases leaf
  rw [resolveLeaf]

theorem resolveLeaves_of_resolved {tree : FunctionTree} {leaves : List Leaf}
    (h : ∀ c ∈ leaves, tree.resolveLeaf c = (c, 0)) : tree.resolveLeaves leaves = (leaves, 0) := by
  induction leaves with
  | nil => rfl
  | cons c rest ih =>
    obtain ⟨hc, hrest⟩ := List.forall_mem_cons.mp h
    rw [resolveLeaves, hc, ih hrest]

/-- Where every record is as resolution leaves it, resolution has nothing to do. -/
theorem resolveLeaf_of_resolved {tree : FunctionTree} {leaf : Leaf}
    (h : ∀ l ∈ leaf.walk, ∀ u ∈ l.usedFunctions, tree.resolveUsed (l.nestedDegree + 1) u = u) :
    tree.resolveLeaf leaf = (leaf, 0) := by
  induction leaf using Leaf.induction_children with
  | step leaf ih =>
    have hused : leaf.usedFunctions.map (tree.resolveUsed (leaf.nestedDegree + 1)) = leaf.usedFunctions :=
      (List.map_congr_left (h leaf leaf.self_mem_walk)).trans (List.map_id _)
    have hchildren := resolveLeaves_of_resolved fun c hc =>
      ih c hc fun l hl => h l (Leaf.mem_walk_of_child hc hl)
    simp only [resolveLeaf_eq_mk, hused, hchildren, newlyResolved_self]
    cases leaf
    rfl

theorem resolveUsed_range (tree : FunctionTree) (limit : Nat) (u : UsedFunction) :
    (tree.resolveUsed limit u).range = u.range := by
  rw [resolveUsed]
  split <;> rfl

/-- What resolution leaves is left alone by a resolution among the same declarations. -/
theorem resolveLeaf_again {tree tree' : FunctionTree}
    (h : tree'.children.map Leaf.bare = tree.children.map Leaf.bare) (leaf : Leaf) :
    tree'.resolveLeaf (tree.resolveLeaf leaf).1 = ((tree.resolveLeaf leaf).1, 0) := by
  refine resolveLeaf_of_resolved fun l hl u hu => ?_
  rw [resolveLeaf_eq, Leaf.walk_withUsed] at hl
  obtain ⟨l', -, rfl⟩ := List.mem_map.mp hl
  rw [Leaf.withUsed_usedFunctions] at hu
  obtain ⟨u', -, rfl⟩ := List.mem_map.mp hu
  rw [Leaf.withUsed_nestedDegree, resolveUsed_congr h, resolveUsed_resolveUsed]

theorem Holds.of_scriptRoot? {tree : FunctionTree} {file : String} {root : Leaf}
    (h : tree.scriptRoot? file = some root) : ∃ before after, tree.Holds file before root after := by
  obtain ⟨hroot, before, after, hsplit, hbefore⟩ := List.find?_eq_some_iff_append.mp h
  exact ⟨before, after, hsplit, fun l hl => by simpa using hbefore l hl, hroot⟩

section
variable {tree : FunctionTree} {file : String} {before after : List Leaf} {root : Leaf}

theorem Holds.modifyRoot_self (h : tree.Holds file before root after) :
    (tree.modifyRoot file fun _ => root) = tree := by
  have hchildren := (h.modifyRoot (f := fun _ => root) rfl).children
  rw [← h.children] at hchildren
  cases tree
  exact congrArg _ hchildren

theorem Holds.children_bare (h : tree.Holds file before root after) {tree' : FunctionTree} {root' : Leaf}
    (h' : tree'.Holds file before root' after) (hbare : root'.bare = root.bare) :
    tree'.children.map Leaf.bare = tree.children.map Leaf.bare := by
  rw [h.children, h'.children, List.map_append, List.map_append, List.map_cons, List.map_cons, hbare]

/-- A second pass over a script that the tree holds changes nothing. -/
theorem Holds.resolveCalls_again (h : tree.Holds file before root after) (calls : List CallSite) :
    (tree.resolveCalls file calls).1.resolveCalls file calls =
      ((tree.resolveCalls file calls).1, ⟨0, 0, (tree.resolveCalls file calls).2.unattributed⟩) := by
  obtain ⟨recorded, stats, hrecorded⟩ :
      ∃ recorded stats, calls.foldl Leaf.recordStep (root, ⟨0, 0, 0⟩) = (recorded, stats) := ⟨_, _, rfl⟩
  have hbare := Leaf.foldl_recordStep_bare calls (root, ⟨0, 0, 0⟩)
  rw [hrecorded] at hbare
  have hpath : recorded.path = root.path := by rw [← Leaf.bare_path, hbare, Leaf.bare_path]
  obtain ⟨hrecording, hresolving, honce⟩ := h.resolveCalls_stages hpath hrecorded
  let recording := tree.modifyRoot file fun _ => recorded
  let resolved := (recording.resolveLeaf recorded).1
  have hresolved : resolved = _ := recording.resolveLeaf_eq recorded
  have hagain : calls.foldl Leaf.recordStep (resolved, ⟨0, 0, 0⟩) =
      (resolved, ⟨0, 0, stats.unattributed⟩) := by
    rw [hresolved]
    refine Leaf.foldl_recordStep_again hrecorded fun l => ?_
    rw [List.map_map]
    exact List.map_congr_left fun u _ => recording.resolveUsed_range _ u
  have hsame := hrecording.children_bare hresolving (by rw [resolveLeaf_eq, Leaf.bare_withUsed])
  rw [honce, (hresolving.resolveCalls_stages rfl hagain).2.2]
  simp only [hresolving.modifyRoot_self, resolveLeaf_again hsame recorded]

/-- A root that is put into a tree that holds one for the same script replaces it. -/
theorem Holds.upsertRoot_eq {tree' : FunctionTree} (h : tree.Holds file before root after)
    {root' : Leaf} (h' : tree'.Holds file before root' after) (hpage : tree'.page = tree.page) :
    tree'.upsertRoot root = tree := by
  have hfile : root.path = Path.ofScript file := eq_of_beq h.root
  have hany : tree'.children.any (fun c => c.path == root.path) = true := by
    rw [h'.children, List.any_append, List.any_cons, hfile, h'.root, Bool.true_or, Bool.or_true]
  have hchildren : modifyFirst (·.path == Path.ofScript file) (fun _ => root) tree'.children =
      tree.children := by
    rw [h'.children, h.children]
    exact modifyFirst_append h'.before h'.root
  rw [upsertRoot, if_pos hany, hfile, hchildren, hpage]

end

theorem resolveCalls_again (tree : FunctionTree) (file : String) (calls : List CallSite) :
    (tree.resolveCalls file calls).1.resolveCalls file calls =
      ((tree.resolveCalls file calls).1, ⟨0, 0, (tree.resolveCalls file calls).2.unattributed⟩) := by
  cases hroot : tree.scriptRoot? file with
  | some root =>
    obtain ⟨before, after, hholds⟩ := Holds.of_scriptRoot? hroot
    exact hholds.resolveCalls_again calls
  | none =>
    have hnothing : tree.resolveCalls file calls = (tree, ⟨0, 0, 0⟩) := by simp only [resolveCalls, hroot]
    rw [hnothing, hnothing]

theorem resolveCalls_page (tree : FunctionTree) (file : String) (calls : List CallSite) :
    (tree.resolveCalls file calls).1.page = tree.page := by
  rw [resolveCalls]
  split <;> rfl

theorem analyseProgram_again {tree tree' : FunctionTree} {script : ScriptSource} {program : Script.Program}
    {withAnonymous : Bool} {report : AnalysisReport}
    (hok : tree.analyseProgram script program withAnonymous = .ok (tree', report)) :
    tree'.analyseProgram script program withAnonymous = .ok (tree', report) := by
  obtain ⟨found, hfound, htree', -⟩ := analyseProgram_eq_ok hok
  obtain ⟨before, after, hholds⟩ := tree.upsertRoot_holds (ofProgram_unused hfound).1
  obtain ⟨root, hholds', -⟩ := resolveCalls_bare hholds (program.calls script.source)
  rw [← htree'] at hholds'
  have hsame : tree'.upsertRoot found.root = tree.upsertRoot found.root :=
    hholds.upsertRoot_eq hholds' (by rw [htree', resolveCalls_page])
  rw [← hok, analyseProgram, analyseProgram, hfound]
  simp only [hsame]

/-- A second pass over the same calls of a script changes nothing, whatever the tree and the calls are:
    leaves may overlap or share names, ranges may come twice, and the page need not have the script. It
    records nothing and resolves nothing, and only counts again the calls outside of the script. And a
    script that is analysed a second time in a row leaves the tree as it is and reports the same, though
    its root is indexed afresh. -/
theorem second_pass_unchanged :
    (∀ (tree : FunctionTree) (file : String) (calls : List CallSite),
      (tree.resolveCalls file calls).1.resolveCalls file calls =
        ((tree.resolveCalls file calls).1, ⟨0, 0, (tree.resolveCalls file calls).2.unattributed⟩)) ∧
    ∀ (tree tree' : FunctionTree) (script : ScriptSource) (withAnonymous : Bool)
      (report : AnalysisReport), tree.analyse script withAnonymous = .ok (tree', report) →
      tree'.analyse script withAnonymous = .ok (tree', report) := by
  refine ⟨resolveCalls_again, fun tree tree' script withAnonymous report hok => ?_⟩
  obtain ⟨program, hparse, hprogram⟩ := analyse_eq_ok_iff.mp hok
  exact analyse_eq_ok_iff.mpr ⟨program, hparse, analyseProgram_again hprogram⟩

theorem second_pass_unchanged_nested :
    ∃ tree report, (empty "p").analyse Sample.nestedCalls false = .ok (tree, report) ∧
      report.resolution = ⟨3, 1, 0⟩ ∧ tree.analyse Sample.nestedCalls false = .ok (tree, report) := by
  have hstats : ((empty "p").analyse Sample.nestedCalls false).toOption.map (·.2.resolution) =
      some ⟨3, 1, 0⟩ := by decide +kernel
  cases hok : (empty "p").analyse Sample.nestedCalls false with
  | error e =>
    rw [hok] at hstats
    cases hstats
  | ok analysed =>
    obtain ⟨tree, report⟩ := analysed
    rw [hok] at hstats
    exact ⟨tree, report, rfl, Option.some.inj hstats, second_pass_unchanged.2 _ _ _ _ _ hok⟩

end FunctionTree
end PageProbe
