import PageProbe.Page.Analysis
import PageProbe.Proofs.Script.Subtree
import PageProbe.Proofs.Tree.Growth
import PageProbe.Proofs.Tree.Recording

namespace PageProbe

open Script

namespace FunctionTree

theorem modifyFirst_append {p : Leaf → Bool} {f : Leaf → Leaf} {before after : List Leaf} {root : Leaf}
    (hbefore : ∀ l ∈ before, p l = false) (hroot : p root = true) :
    modifyFirst p f (before ++ root :: after) = before ++ f root :: after := by
  induction before with
  | nil => simp [modifyFirst, hroot]
  | cons l rest ih =>
    rw [List.cons_append, modifyFirst, hbefore l List.mem_cons_self,
      ih fun l' hl' => hbefore l' (List.mem_cons_of_mem l hl')]
    rfl

/-- A tree in which a root stands before all others of its path. -/
structure Holds (tree : FunctionTree) (file : String) (before : List Leaf) (root : Leaf)
    (after : List Leaf) : Prop where
  children : tree.children = before ++ root :: after
  before : ∀ l ∈ before, (l.path == Path.ofScript file) = false
  root : (root.path == Path.ofScript file) = true

theorem Holds.scriptRoot? {tree : FunctionTree} {file : String} {before after : List Leaf} {root : Leaf}
    (h : tree.Holds file before root after) : tree.scriptRoot? file = some root := by
  have hnone : before.find? (fun l => l.path == Path.ofScript file) = none :=
    List.find?_eq_none.mpr fun l hl => by simp [h.before l hl]
  rw [FunctionTree.scriptRoot?, h.children, List.find?_append, hnone, List.find?_cons, h.root]
  rfl

theorem Holds.modifyRoot {tree : FunctionTree} {file : String} {before after : List Leaf} {root : Leaf}
    (h : tree.Holds file before root after) {f : Leaf → Leaf} (hf : (f root).path = root.path) :
    (tree.modifyRoot file f).Holds file before (f root) after where
  children := by
    rw [FunctionTree.modifyRoot, h.children]
    exact modifyFirst_append h.before h.root
  before := h.before
  root := by
    rw [hf]
    exact h.root

/-- A root that is put into a tree replaces the first one of its path, or comes last if there is none. -/
theorem upsertRoot_cases (tree : FunctionTree) {root : Leaf} {file : String}
    (hroot : root.path = Path.ofScript file) :
    ∃ before after, (tree.upsertRoot root).Holds file before root after ∧
      ((∃ old, tree.Holds file before old after) ∨
        (∀ l ∈ tree.children, l.path ≠ Path.ofScript file) ∧ before = tree.children ∧ after = []) := by
  have hself : (root.path == Path.ofScript file) = true := by simp [hroot]
  rw [upsertRoot]
  split
  next hany =>
    obtain ⟨old, hold, before, after, hsplit, hbefore⟩ :
        ∃ old, (old.path == root.path) = true ∧ ∃ before after,
          tree.children = before ++ old :: after ∧ ∀ l ∈ before, (l.path == root.path) = false := by
      obtain ⟨old, hfind⟩ := Option.isSome_iff_exists.mp (List.find?_isSome.mpr (List.any_eq_true.mp hany))
      obtain ⟨hold, before, after, hsplit, hbefore⟩ := List.find?_eq_some_iff_append.mp hfind
      exact ⟨old, hold, before, after, hsplit, fun l hl => by simpa using hbefore l hl⟩
    refine ⟨before, after, ⟨?_, ?_, hself⟩, .inl ⟨old, ⟨hsplit, ?_, ?_⟩⟩⟩
    · rw [hsplit]
      exact modifyFirst_append hbefore hold
    · rwa [← hroot]
    · rwa [← hroot]
    · rwa [← hroot]
  next hany =>
    have hnone : ∀ l ∈ tree.children, l.path ≠ Path.ofScript file := by
      intro l hl hpath
      exact hany (List.any_eq_true.mpr ⟨l, hl, by simp [hpath, hroot]⟩)
    refine ⟨tree.children, [], ⟨rfl, fun l hl => ?_, hself⟩, .inr ⟨hnone, rfl, rfl⟩⟩
    rw [beq_eq_false_iff_ne]
    exact hnone l hl

/-- A root that is put into a tree stands before all others of its path. -/
theorem upsertRoot_holds (tree : FunctionTree) {root : Leaf} {file : String}
    (hroot : root.path = Path.ofScript file) :
    ∃ before after, (tree.upsertRoot root).Holds file before root after := by
  obtain ⟨before, after, hholds, -⟩ := tree.upsertRoot_cases hroot
  exact ⟨before, after, hholds⟩

/-- What a pass does to a script that the tree holds: the calls are recorded, and the records are then
    resolved among the declarations of the tree with the calls recorded. -/
theorem Holds.resolveCalls_stages {tree : FunctionTree} {file : String} {before after : List Leaf}
    {root recorded : Leaf} (h : tree.Holds file before root after) {calls : List CallSite}
    {stats : ResolutionStats} (hpath : recorded.path = root.path)
    (hrecorded : calls.foldl Leaf.recordStep (root, ⟨0, 0, 0⟩) = (recorded, stats)) :
    let recording := tree.modifyRoot file fun _ => recorded
    let resolved := (recording.resolveLeaf recorded).1
    let resolving := recording.modifyRoot file fun _ => resolved
    recording.Holds file before recorded after ∧ resolving.Holds file before resolved after ∧
      tree.resolveCalls file calls =
        (resolving, { stats with resolved := (recording.resolveLeaf recorded).2 }) := by
  intro recording resolved resolving
  have hrecording : recording.Holds file before recorded after := h.modifyRoot hpath
  have hresolved : resolved = _ := recording.resolveLeaf_eq recorded
  refine ⟨hrecording, hrecording.modifyRoot (by rw [hresolved, Leaf.withUsed_path]), ?_⟩
  simp only [resolveCalls, h.scriptRoot?, hrecorded]
  rfl

/-- Recording and resolving the calls of a script replaces the root of the script. Resolution gives
    records paths and leaves them as they are otherwise. -/
theorem resolveCalls_holds {tree : FunctionTree} {file : String} {before after : List Leaf}
    {root recorded : Leaf} (h : tree.Holds file before root after) {calls : List CallSite}
    {stats : ResolutionStats} (hpath : recorded.path = root.path)
    (hrecorded : calls.foldl Leaf.recordStep (root, ⟨0, 0, 0⟩) = (recorded, stats)) :
    ∃ (resolve : Leaf → List UsedFunction) (resolved : Nat),
      (∀ l, (resolve l).map UsedFunction.unresolved = l.usedFunctions.map UsedFunction.unresolved) ∧
      (tree.resolveCalls file calls).1.Holds file before (recorded.withUsed resolve) after ∧
      (tree.resolveCalls file calls).1.page = tree.page ∧
      (tree.resolveCalls file calls).2 = { stats with resolved := resolved } := by
  let recording := tree.modifyRoot file fun _ => recorded
  obtain ⟨-, hresolving, hcalls⟩ := h.resolveCalls_stages hpath hrecorded
  refine ⟨fun l => l.usedFunctions.map (recording.resolveUsed (l.nestedDegree + 1)),
    (recording.resolveLeaf recorded).2, fun l => ?_, ?_, ?_, ?_⟩
  · rw [List.map_map]
    exact List.map_congr_left fun u _ => recording.resolveUsed_unresolved _ u
  · rw [hcalls, ← recording.resolveLeaf_eq recorded]
    exact hresolving
  · rw [hcalls]
    rfl
  · rw [hcalls]

theorem flatMap_ite_singleton {α β : Type} (p : α → Bool) (b : β) (as : List α) :
    (as.flatMap fun a => if p a then [b] else []) = List.replicate (as.countP p) b := by
  induction as with
  | nil => rfl
  | cons a rest ih => cases ha : p a <;> simp [ha, ih, List.replicate_succ]

/-- Items of which every one is picked by one of several pickers are all picked once. -/
theorem perm_flatMap_filter {α β : Type} (p : α → β → Bool) (pickers : List α) (items : List β)
    (h : ∀ b ∈ items, pickers.countP (p · b) = 1) :
    (pickers.flatMap fun a => items.filter (p a)).Perm items := by
  induction items with
  | nil => simp
  | cons b rest ih =>
    have hone : (pickers.flatMap fun a => if p a b then [b] else []) = [b] := by
      rw [flatMap_ite_singleton, h b List.mem_cons_self]
      rfl
    have hrest := ih fun b' hb' => h b' (List.mem_cons_of_mem b hb')
    have hsplit : (fun a => (b :: rest).filter (p a)) =
        fun a => (if p a b then [b] else []) ++ rest.filter (p a) := by
      funext a
      rw [List.filter_cons]
      split <;> rfl
    rw [hsplit]
    refine (List.flatMap_append_perm pickers _ _).symm.trans ?_
    rw [hone]
    exact hrest.cons b

/-- Nothing is recorded on the leaves of a script that was just indexed. -/
theorem inherited_unused : Inherited (fun _ => True) fun _ leaf => ∀ l ∈ leaf.walk, l.usedFunctions = [] := by
  intro s bound range params children _ _ hchildren l hl
  rw [Leaf.walk_eq] at hl
  rcases List.mem_cons.mp hl with rfl | hl
  · cases bound <;> rfl
  · obtain ⟨c, hc, hl⟩ := List.mem_flatMap.mp hl
    exact hchildren c hc l hl

theorem ofProgram_unused {program : Program} {file source : String} {withAnonymous : Bool}
    {found : Discovery} (hfound : Discovery.ofProgram program file source withAnonymous = .ok found) :
    found.root.path = Path.ofScript file ∧ ∀ l ∈ found.root.walk, l.usedFunctions = [] := by
  obtain ⟨children, hchildren, hroot⟩ :=
    Discovery.ofProgram_brings inherited_unused (fun _ _ => trivial) hfound
  rw [hroot]
  refine ⟨rfl, fun l hl => ?_⟩
  rw [Leaf.walk_eq] at hl
  rcases List.mem_cons.mp hl with rfl | hl
  · rfl
  · obtain ⟨c, hc, hl⟩ := List.mem_flatMap.mp hl
    exact hchildren c hc l hl

theorem analyseProgram_eq_ok {tree tree' : FunctionTree} {script : ScriptSource} {program : Program}
    {withAnonymous : Bool} {report : AnalysisReport}
    (hok : tree.analyseProgram script program withAnonymous = .ok (tree', report)) :
    ∃ found, Discovery.ofProgram program script.name script.source withAnonymous = .ok found ∧
      tree' = ((tree.upsertRoot found.root).resolveCalls script.name (program.calls script.source)).1 ∧
      report.calls = (program.calls script.source).length ∧
      report.resolution =
        ((tree.upsertRoot found.root).resolveCalls script.name (program.calls script.source)).2 := by
  rw [analyseProgram] at hok
  cases hfound : Discovery.ofProgram program script.name script.source withAnonymous with
  | error e =>
    rw [hfound] at hok
    cases hok
  | ok found =>
    rw [hfound] at hok
    cases hok
    exact ⟨found, rfl, rfl, rfl, rfl⟩

/-- The analysis of a script is that of what it parses to. -/
theorem analyse_eq_ok_iff {tree : FunctionTree} {script : ScriptSource} {withAnonymous : Bool}
    {analysed : FunctionTree × AnalysisReport} :
    tree.analyse script withAnonymous = .ok analysed ↔
      ∃ program, parse? script.source = some program ∧
        tree.analyseProgram script program withAnonymous = .ok analysed := by
  unfold analyse
  cases parse? script.source with
  | none => simp
  | some program => simp

/-- Every call of a script is recorded once, when the syntax tree is nested and the calls hold bytes at
    different places. Its record stands on the one leaf that contains the call while no child does, and
    says what was collected about the call. There are no other records, so that as many calls are
    attributed as there are. Apart from the records below it the root of the script is the one that was
    indexed, and all other roots are as they were. Nothing is assumed of the tree that the script is
    analysed into. -/
theorem analyseProgram_attribution {tree tree' : FunctionTree} {script : ScriptSource}
    {program : Program} {withAnonymous : Bool} {report : AnalysisReport}
    (hnested : program.Nested (Text.width script.source.toList))
    (hdistinct : program.callSpans.Nodup) (hbytes : ∀ r ∈ program.callSpans, r.start < r.stop)
    (hok : tree.analyseProgram script program withAnonymous = .ok (tree', report)) :
    ∃ found before root after,
      Discovery.ofProgram program script.name script.source withAnonymous = .ok found ∧
      (tree.upsertRoot found.root).Holds script.name before found.root after ∧
      tree'.Holds script.name before root after ∧ tree'.page = tree.page ∧
      root.bare = found.root ∧
      (root.walk.flatMap fun leaf => leaf.usedFunctions.map (·.range)).Perm program.callSpans ∧
      (∀ r ∈ program.callSpans, root.walk.countP (·.innermost r) = 1) ∧
      (∀ leaf ∈ root.walk, leaf.usedFunctions.map UsedFunction.unresolved =
        ((program.calls script.source).filter fun c => leaf.innermost c.range).map leaf.usedOf) ∧
      report.calls = program.callSpans.length ∧ report.resolution.attributed = report.calls ∧
      report.resolution.unattributed = 0 := by
  obtain ⟨found, hfound, htree', hcount, hstats⟩ := analyseProgram_eq_ok hok
  obtain ⟨hpath, hunused⟩ := ofProgram_unused hfound
  obtain ⟨hrange, hplaced⟩ := Discovery.root_placed hnested hfound
  obtain ⟨before, after, hholds⟩ := tree.upsertRoot_holds hpath
  have hranges := program.calls_ranges script.source
  have hspan : ∀ c ∈ program.calls script.source, c.range ∈ program.callSpans := by
    intro c hc
    rw [← hranges]
    exact List.mem_map_of_mem hc
  have hrecorded := Leaf.foldl_recordStep hplaced (fun c hc => hbytes c.range (hspan c hc))
    (fun c hc => by rw [hrange]; exact hnested.calls_inside c.range (hspan c hc))
    (List.pairwise_map.mp (by rw [hranges]; exact hdistinct))
    (fun c hc l hl u hu => by rw [hunused l hl] at hu; cases hu) ⟨0, 0, 0⟩
  obtain ⟨resolve, resolved, hresolve, hfinal, hpage, hresolved⟩ := resolveCalls_holds hholds (Leaf.withUsed_path _) hrecorded
  let records := Leaf.recordsOf (program.calls script.source)
  let root := (found.root.withUsed records).withUsed resolve
  have hused : ∀ leaf ∈ root.walk, leaf.usedFunctions.map UsedFunction.unresolved =
      ((program.calls script.source).filter fun c => leaf.innermost c.range).map leaf.usedOf := by
    intro leaf hleaf
    rw [Leaf.walk_withUsed, Leaf.walk_withUsed, List.map_map] at hleaf
    obtain ⟨l, hl, rfl⟩ := List.mem_map.mp hleaf
    simp only [Function.comp_apply, Leaf.withUsed_usedFunctions, hresolve, Leaf.withUsed_innermost,
      Leaf.withUsed_usedOf, records, Leaf.recordsOf, hunused l hl, List.nil_append, List.map_map]
    exact List.map_congr_left fun c _ => rfl
  have hspans : ∀ leaf ∈ root.walk,
      leaf.usedFunctions.map (·.range) = program.callSpans.filter leaf.innermost := by
    intro leaf hleaf
    have hunresolved : (leaf.usedFunctions.map UsedFunction.unresolved).map (·.range) =
        leaf.usedFunctions.map (·.range) := by rw [List.map_map]; rfl
    rw [← hunresolved, hused leaf hleaf, List.map_map, ← hranges, List.filter_map]
    rfl
  have hinner : ∀ r ∈ program.callSpans, root.walk.countP (·.innermost r) = 1 := by
    intro r hr
    refine ((hplaced.withUsed records).withUsed resolve).countP_innermost (hbytes r hr) ?_
    rw [Leaf.withUsed_range, Leaf.withUsed_range, hrange]
    exact hnested.calls_inside r hr
  refine ⟨found, before, root, after, hfound, hholds, htree' ▸ hfinal, ?_, ?_, ?_, hinner, hused, ?_, ?_, ?_⟩
  · rw [htree', hpage, upsertRoot]
    split <;> rfl
  · rw [Leaf.bare_withUsed, Leaf.bare_withUsed, Leaf.bare_of_unused hunused]
  · rw [List.flatMap_congr hspans]
    exact perm_flatMap_filter Leaf.innermost root.walk program.callSpans hinner
  · rw [hcount, ← hranges, List.length_map]
  · rw [hstats, hresolved, hcount]
    exact Nat.zero_add _
  · rw [hstats, hresolved]

end FunctionTree

namespace Sample

def nestedCalls : ScriptSource := ⟨"a.js", "function f()\x7bg(h());\x7df();"⟩

/-- The call of `g` in the source, with the call of `h` as its argument. -/
def innerCalls : Node :=
  .call ⟨13, 19⟩ (.name ⟨13, 14⟩ "g") [.call ⟨15, 18⟩ (.name ⟨15, 16⟩ "h") []]

def caller : Node := .function ⟨0, 21⟩ false [] [.statement ⟨13, 20⟩ [innerCalls]]

def callerProgram : Program :=
  ⟨[.statement ⟨0, 21⟩ [.functionDecl ⟨0, 21⟩ "f" caller],
    .statement ⟨21, 25⟩ [.call ⟨21, 24⟩ (.name ⟨21, 22⟩ "f") []]]⟩

theorem callerProgram_callSpans : callerProgram.callSpans = [⟨13, 19⟩, ⟨15, 18⟩, ⟨21, 24⟩] := by
  simp [callerProgram, caller, innerCalls, Program.callSpans, Program.nodes, Node.subtree_eq, Node.parts]
  rfl

theorem callerProgram_nested : callerProgram.Nested 25 where
  inside := by decide
  apart := by decide
  trees n hn := by
    refine .of_subtree ?_
    rcases List.mem_cons.mp hn with rfl | hn
    · simp only [Node.subtree_eq, Node.parts, caller, innerCalls, List.flatMap_cons, List.flatMap_nil,
        List.append_nil, List.nil_append]
      decide
    · rw [List.mem_singleton.mp hn]
      simp only [Node.subtree_eq, Node.parts, List.flatMap_cons, List.flatMap_nil, List.append_nil]
      decide

end Sample

theorem FunctionTree.analyseProgram_attribution_nested :
    ∃ tree report,
      (empty "p").analyseProgram Sample.nestedCalls Sample.callerProgram false = .ok (tree, report) ∧
      report.resolution.attributed = 3 ∧ report.resolution.unattributed = 0 := by
  obtain ⟨⟨tree, report⟩, hok⟩ : ∃ analysed,
      (empty "p").analyseProgram Sample.nestedCalls Sample.callerProgram false = .ok analysed := ⟨_, rfl⟩
  have hnested : Sample.callerProgram.Nested (Text.width Sample.nestedCalls.source.toList) :=
    Sample.callerProgram_nested
  have hcalls := Sample.callerProgram_callSpans
  obtain ⟨_, _, _, _, _, _, _, _, _, _, _, _, hcount, hattributed, hunattributed⟩ :=
    analyseProgram_attribution hnested (by rw [hcalls]; decide) (by rw [hcalls]; decide) hok
  rw [hcalls] at hcount
  exact ⟨tree, report, hok, hattributed.trans hcount, hunattributed⟩

end PageProbe
