import PageProbe.Proofs.Tree.Attribution
import PageProbe.Proofs.Tree.Segments

namespace PageProbe

open Script

namespace Leaf

theorem findChild?_eq (path step : String) (leaves : List Leaf) :
    findChild? path step leaves = (leaves.find? fun c => c.path == step).bind (find? path) := by
  induction leaves with
  | nil => rfl
  | cons c rest ih =>
    rw [findChild?, ih, List.find?_cons]
    by_cases hc : c.path = step
    · rw [if_pos hc, beq_iff_eq.mpr hc]
      rfl
    · rw [if_neg hc, beq_eq_false_iff_ne.mpr hc]

theorem find?_eq (path : String) (leaf : Leaf) :
    leaf.find? path =
      if leaf.path = path then some leaf
      else if (Path.segments path).length ≤ (Path.segments leaf.path).length then none
      else (leaf.children.find? fun c => c.path ==
        Path.join ((Path.segments path).take ((Path.segments leaf.path).length + 1))).bind (find? path) := by
  cases leaf
  simp only [find?, findChild?_eq]

/-- What a lookup finds is a leaf below, and it has the path that was sought. -/
theorem find?_eq_some {path : String} {leaf l : Leaf} (h : leaf.find? path = some l) :
    l ∈ leaf.walk ∧ l.path = path := by
  induction leaf using induction_children with
  | step leaf ih =>
    rw [find?_eq] at h
    rw [walk_eq]
    split at h
    · next hpath =>
      cases h
      exact ⟨List.mem_cons_self, hpath⟩
    split at h
    · cases h
    · obtain ⟨c, hc, h⟩ := Option.bind_eq_some_iff.mp h
      have hc := List.mem_of_find?_eq_some hc
      obtain ⟨hl, hpath⟩ := ih c hc h
      exact ⟨List.mem_cons_of_mem leaf (List.mem_flatMap.mpr ⟨c, hc, hl⟩), hpath⟩

/-- One step of a lookup for what is below a leaf. -/
theorem find?_of_segments {path : String} {leaf : Leaf} {segment : String} {more : List String}
    (h : Path.segments path = Path.segments leaf.path ++ segment :: more) :
    leaf.find? path =
      (leaf.children.find? fun c => c.path == Path.join (Path.segments leaf.path ++ [segment])).bind
        (find? path) := by
  have hne : leaf.path ≠ path := by
    rintro rfl
    simpa using congrArg List.length h
  have hlonger : ¬(Path.segments path).length ≤ (Path.segments leaf.path).length := by
    rw [h, List.length_append, List.length_cons]
    omega
  have htake : (Path.segments path).take ((Path.segments leaf.path).length + 1) =
      Path.segments leaf.path ++ [segment] := by
    rw [h, List.take_length_add_append]
    rfl
  rw [find?_eq, if_neg hne, if_neg hlonger, htake]

/-- A lookup for what is below goes from a leaf down to another: to the first child of a path each time,
    whose name has no slash in it. -/
inductive Leads : Leaf → Leaf → Prop where
  | here (leaf : Leaf) : Leads leaf leaf
  | into {leaf c l : Leaf} {name : String} (hname : c.path = Path.child leaf.path name)
    (hplain : '/' ∉ name.toList) (hfirst : leaf.children.find? (fun d => d.path == c.path) = some c)
    (h : Leads c l) : Leads leaf l

theorem Leads.segments {leaf l : Leaf} (h : Leads leaf l) :
    ∃ more, Path.segments l.path = Path.segments leaf.path ++ more := by
  induction h with
  | here leaf => exact ⟨[], (List.append_nil _).symm⟩
  | @into leaf c l name hname _ _ _ ih =>
    obtain ⟨more, hmore⟩ := ih
    exact ⟨Path.segments name ++ more, by rw [hmore, hname, Path.segments_child, List.append_assoc]⟩

/-- A lookup of a path that goes on behind the path of a leaf comes to the leaf. -/
theorem Leads.find? {root l : Leaf} (h : Leads root l) {path : String} {more : List String}
    (hpath : Path.segments path = Path.segments l.path ++ more) : root.find? path = l.find? path := by
  induction h with
  | here => rfl
  | @into leaf c l name hname hplain hfirst h ih =>
    obtain ⟨below, hbelow⟩ := h.segments
    have hc : Path.segments c.path = Path.segments leaf.path ++ [name] := by
      rw [hname, Path.segments_child, Path.segments_of_plain hplain]
    have hsegments : Path.segments path = Path.segments leaf.path ++ name :: (below ++ more) := by
      rw [hpath, hbelow, hc, List.append_assoc, List.append_assoc]
      rfl
    rw [find?_of_segments hsegments, ← hc, Path.join_segments, hfirst]
    exact ih hpath

/-- A lookup for a function whose name has no slash finds the first of its siblings that has its path. -/
theorem Leads.find?_child {root parent leaf : Leaf} {name : String} (h : Leads root parent)
    (hleaf : leaf ∈ parent.children) (hname : leaf.path = Path.child parent.path name)
    (hplain : '/' ∉ name.toList) :
    ∃ found ∈ parent.children, root.find? leaf.path = some found ∧ found.path = leaf.path := by
  have hsegments : Path.segments leaf.path = Path.segments parent.path ++ [name] := by
    rw [hname, Path.segments_child, Path.segments_of_plain hplain]
  have hsome : (parent.children.find? fun c => c.path == leaf.path).isSome = true :=
    List.find?_isSome.mpr ⟨leaf, hleaf, beq_self_eq_true leaf.path⟩
  obtain ⟨found, hfound⟩ := Option.isSome_iff_exists.mp hsome
  have hpath : found.path = leaf.path := by simpa using List.find?_some hfound
  refine ⟨found, List.mem_of_find?_eq_some hfound, ?_, hpath⟩
  rw [h.find? hsegments, find?_of_segments hsegments, ← hsegments, Path.join_segments, hfound,
    Option.bind_some, find?_eq, if_pos hpath]

/-- A function whose name has a slash in it is not found, unless one of its siblings has what stands
    before the slash as its name. -/
theorem Leads.find?_child_of_slash {root parent : Leaf} {name first rest : String}
    (h : Leads root parent) (hplain : '/' ∉ first.toList) (hname : name = Path.child first rest)
    (hnone : ∀ c ∈ parent.children, c.path ≠ Path.child parent.path first) :
    root.find? (Path.child parent.path name) = none := by
  have hsegments : Path.segments (Path.child parent.path name) =
      Path.segments parent.path ++ first :: Path.segments rest := by
    rw [hname, Path.segments_child, Path.segments_child, Path.segments_of_plain hplain]
    rfl
  have hstep : Path.segments (Path.child parent.path first) = Path.segments parent.path ++ [first] := by
    rw [Path.segments_child, Path.segments_of_plain hplain]
  rw [h.find? hsegments, find?_of_segments hsegments, ← hstep, Path.join_segments,
    List.find?_eq_none.mpr fun c hc => by simpa using hnone c hc]
  rfl

/-- A leaf whose children have names without slashes, and different ones. -/
structure Clear (leaf : Leaf) : Prop where
  plain : ∀ c ∈ leaf.children, ∃ name, c.path = Path.child leaf.path name ∧ '/' ∉ name.toList
  distinct : leaf.children.Pairwise fun c c' => c.path ≠ c'.path

theorem Clear.of_paths {leaf : Leaf} {paths : List String} (h : leaf.children.map path = paths)
    (hplain : ∀ p ∈ paths, ∃ name, p = Path.child leaf.path name ∧ '/' ∉ name.toList)
    (hdistinct : paths.Pairwise (· ≠ ·)) : leaf.Clear where
  plain _ hc := hplain _ (h ▸ List.mem_map_of_mem hc)
  distinct := List.pairwise_map.mp (h ▸ hdistinct)

/-- Among leaves of different paths each is found by its own. -/
theorem find?_of_distinct {leaves : List Leaf} {c : Leaf}
    (h : leaves.Pairwise fun c c' => c.path ≠ c'.path) (hc : c ∈ leaves) :
    leaves.find? (fun d => d.path == c.path) = some c := by
  obtain ⟨before, after, rfl⟩ := List.append_of_mem hc
  obtain ⟨-, -, hcross⟩ := List.pairwise_append.mp h
  refine List.find?_eq_some_iff_append.mpr ⟨beq_self_eq_true c.path, before, after, rfl, fun d hd => ?_⟩
  simpa using hcross d hd c List.mem_cons_self

theorem Clear.first {leaf c : Leaf} (h : leaf.Clear) (hc : c ∈ leaf.children) :
    leaf.children.find? (fun d => d.path == c.path) = some c :=
  find?_of_distinct h.distinct hc

/-- Lookups lead everywhere when all leaves are clear. -/
theorem leads_of_clear {root l : Leaf} (hclear : ∀ l ∈ root.walk, l.Clear) (hl : l ∈ root.walk) :
    Leads root l := by
  induction root using induction_children with
  | step root ih =>
    rw [walk_eq] at hl
    rcases List.mem_cons.mp hl with rfl | hl
    · exact .here l
    · obtain ⟨c, hc, hl⟩ := List.mem_flatMap.mp hl
      obtain ⟨name, hname, hplain⟩ := (hclear root root.self_mem_walk).plain c hc
      refine .into hname hplain ((hclear root root.self_mem_walk).first hc) ?_
      exact ih c hc (fun l' hl' => hclear l' (mem_walk_of_child hc hl')) hl

theorem Leads.find?_self {root l : Leaf} (h : Leads root l) : root.find? l.path = some l := by
  rw [h.find? (List.append_nil _).symm, find?_eq, if_pos rfl]

theorem bare_eq (leaf : Leaf) :
    leaf.bare = { leaf with usedFunctions := [], children := leaf.children.map bare } :=
  withUsed_eq _ leaf

theorem walk_bare (leaf : Leaf) : leaf.bare.walk = leaf.walk.map bare := walk_withUsed _ leaf

theorem bare_path (leaf : Leaf) : leaf.bare.path = leaf.path := withUsed_path leaf

mutual
/-- Recording a call changes records only. -/
theorem record_bare (c : CallSite) : (leaf : Leaf) → (record c leaf).1.bare = leaf.bare
  | ⟨paths, args, range, children, used, holder, source, declarationEnd, anonymousEnd⟩ => by
    rw [record]
    cases hbelow : recordBelow c children with
    | none =>
      dsimp only
      split <;> simp only [bare_eq]
    | some below =>
      simp only [bare_eq, recordBelow_bare c children below hbelow]

theorem recordBelow_bare (c : CallSite) : (leaves : List Leaf) → (below : List Leaf × Bool) →
    recordBelow c leaves = some below → below.1.map bare = leaves.map bare
  | [], _, h => nomatch h
  | leaf :: rest, below, h => by
    rw [recordBelow] at h
    split at h
    · cases h
      simp [record_bare c leaf]
    · obtain ⟨more, hmore, rfl⟩ := Option.map_eq_some_iff.mp h
      simp [recordBelow_bare c rest more hmore]
end

/-- What all leaves below have in common does not depend on the records. -/
theorem mem_walk_bare {root root' l : Leaf} (h : root'.bare = root.bare) (hl : l ∈ root'.walk) :
    ∃ l' ∈ root.walk, l'.bare = l.bare := by
  have hwalk : root'.walk.map bare = root.walk.map bare := by
    rw [← walk_bare, ← walk_bare, h]
  obtain ⟨l', hl', hbare⟩ := List.mem_map.mp (hwalk ▸ List.mem_map_of_mem hl)
  exact ⟨l', hl', hbare⟩

theorem recordStep_bare (state : Leaf × ResolutionStats) (c : CallSite) :
    (recordStep state c).1.bare = state.1.bare := by
  rw [recordStep]
  split
  · exact record_bare c state.1
  · rfl

theorem foldl_recordStep_bare (calls : List CallSite) (state : Leaf × ResolutionStats) :
    (calls.foldl recordStep state).1.bare = state.1.bare := by
  induction calls generalizing state with
  | nil => rfl
  | cons c rest ih => rw [List.foldl_cons, ih, recordStep_bare]

/-- A leaf below whose name is put behind the path of the leaf around it. -/
def NamesChildren (leaf : Leaf) : Prop := ∀ c ∈ leaf.children, ∃ name, c.path = Path.child leaf.path name

theorem NamesChildren.of_bare {l l' : Leaf} (h : l'.bare = l.bare) (hnames : l.NamesChildren) :
    l'.NamesChildren := by
  intro c hc
  have hpath : l'.path = l.path := by rw [← bare_path l', h, bare_path]
  have hchildren : l'.children.map bare = l.children.map bare := by
    have := congrArg children h
    rwa [bare_eq, bare_eq l] at this
  obtain ⟨d, hd, hbare⟩ := List.mem_map.mp (hchildren ▸ List.mem_map_of_mem (f := bare) hc)
  obtain ⟨name, hname⟩ := hnames d hd
  exact ⟨name, by rw [hpath, ← bare_path c, ← hbare, bare_path, hname]⟩

/-- The path of a leaf goes on behind the paths of the leaves around it. -/
theorem segments_of_mem_walk {root l : Leaf} (hnames : ∀ l ∈ root.walk, l.NamesChildren)
    (hl : l ∈ root.walk) : ∃ more, Path.segments l.path = Path.segments root.path ++ more := by
  induction root using induction_children with
  | step root ih =>
    rw [walk_eq] at hl
    rcases List.mem_cons.mp hl with rfl | hl
    · exact ⟨[], (List.append_nil _).symm⟩
    · obtain ⟨c, hc, hl⟩ := List.mem_flatMap.mp hl
      obtain ⟨name, hname⟩ := hnames root root.self_mem_walk c hc
      obtain ⟨more, hmore⟩ := ih c hc (fun l' hl' => hnames l' (mem_walk_of_child hc hl')) hl
      exact ⟨Path.segments name ++ more, by rw [hmore, hname, Path.segments_child, List.append_assoc]⟩

theorem inherited_namesChildren : Inherited (fun _ => True) fun path leaf =>
    (∃ name, leaf.path = Path.child path name) ∧ ∀ l ∈ leaf.walk, l.NamesChildren := by
  intro s bound range params children _ _ hchildren
  refine ⟨by cases bound <;> exact ⟨_, rfl⟩, fun l hl => ?_⟩
  rw [walk_eq] at hl
  rcases List.mem_cons.mp hl with rfl | hl
  · exact fun c hc => (hchildren c hc).1
  · obtain ⟨c, hc, hl⟩ := List.mem_flatMap.mp hl
    exact (hchildren c hc).2 l hl

end Leaf

namespace FunctionTree

/-- Recording and resolving the calls of a script leaves everything but records as it is. -/
theorem resolveCalls_bare {tree : FunctionTree} {file : String} {before after : List Leaf} {root : Leaf}
    (h : tree.Holds file before root after) (calls : List CallSite) :
    ∃ root', (tree.resolveCalls file calls).1.Holds file before root' after ∧ root'.bare = root.bare := by
  have hbare := Leaf.foldl_recordStep_bare calls (root, ⟨0, 0, 0⟩)
  have hpath : (calls.foldl Leaf.recordStep (root, ⟨0, 0, 0⟩)).1.path = root.path := by
    rw [← Leaf.bare_path, hbare, Leaf.bare_path]
  obtain ⟨resolve, _, _, hholds, _⟩ := resolveCalls_holds h hpath rfl
  exact ⟨_, hholds, by rw [Leaf.bare_withUsed, hbare]⟩

/-- What an analysed script leaves in the tree is its root as it was indexed, with records. -/
theorem analyse_eq_ok {tree tree' : FunctionTree} {script : ScriptSource} {withAnonymous : Bool}
    {report : AnalysisReport} (hok : tree.analyse script withAnonymous = .ok (tree', report)) :
    ∃ program found root before after, parse? script.source = some program ∧
      Discovery.ofProgram program script.name script.source withAnonymous = .ok found ∧
      tree'.Holds script.name before root after ∧ root.bare = found.root.bare := by
  obtain ⟨program, hparse, hprogram⟩ := analyse_eq_ok_iff.mp hok
  obtain ⟨found, hfound, htree', -⟩ := analyseProgram_eq_ok hprogram
  obtain ⟨before, after, hholds⟩ := tree.upsertRoot_holds (ofProgram_unused hfound).1
  obtain ⟨root, hholds', hbare⟩ := resolveCalls_bare hholds (program.calls script.source)
  rw [← htree'] at hholds'
  exact ⟨program, found, root, before, after, hparse, hfound, hholds', hbare⟩

/-- In an analysed script, every leaf below the root has the path of the leaf around it with a name
    behind. -/
theorem analyse_namesChildren {tree tree' : FunctionTree} {script : ScriptSource} {withAnonymous : Bool}
    {report : AnalysisReport} (hok : tree.analyse script withAnonymous = .ok (tree', report)) :
    ∃ root, tree'.scriptRoot? script.name = some root ∧ root.path = Path.ofScript script.name ∧
      ∀ parent ∈ root.walk, parent.NamesChildren := by
  obtain ⟨program, found, root, _, _, -, hfound, hholds, hbare⟩ := analyse_eq_ok hok
  obtain ⟨children, hchildren, hroot⟩ :=
    Discovery.ofProgram_brings Leaf.inherited_namesChildren (fun _ _ => trivial) hfound
  refine ⟨root, hholds.scriptRoot?, ?_, fun parent hparent => ?_⟩
  · rw [← Leaf.bare_path, hbare, Leaf.bare_path, hroot]
    rfl
  · obtain ⟨l, hl, hsame⟩ := Leaf.mem_walk_bare hbare hparent
    refine Leaf.NamesChildren.of_bare hsame.symm ?_
    rw [hroot, Leaf.walk_eq] at hl
    rcases List.mem_cons.mp hl with rfl | hl
    · exact fun c hc => (hchildren c hc).1
    · obtain ⟨c, hc, hl⟩ := List.mem_flatMap.mp hl
      exact (hchildren c hc).2 l hl

/-- What is found for a path is a leaf of the script that the path names. -/
theorem find?_eq_some {tree : FunctionTree} {path : String} {l : Leaf} (h : tree.find? path = some l) :
    ∃ root, Path.first path ≠ "" ∧ tree.scriptRoot? (Path.first path) = some root ∧ l ∈ root.walk ∧
      l.path = path := by
  rw [find?] at h
  split at h
  · cases h
  · next hfile =>
    obtain ⟨root, hroot, h⟩ := Option.bind_eq_some_iff.mp h
    obtain ⟨hl, hpath⟩ := Leaf.find?_eq_some h
    exact ⟨root, hfile, hroot, hl, hpath⟩

/-- A lookup of what is below the root of a script starts at the root. -/
theorem find?_of_segments {tree : FunctionTree} {file path : String} {root : Leaf} {more : List String}
    (hfile : file ≠ "") (hroot : tree.scriptRoot? file = some root)
    (hpath : Path.segments path = "" :: file :: more) : tree.find? path = root.find? path := by
  rw [find?, Path.first_of_segments hfile hpath, if_neg hfile, hroot, Option.bind_some]

/-- Every function of an analysed script has the path of the leaf around it with its own name behind. Its
    path is found again when its name has no slash in it and a lookup leads to the leaf around it, though
    the leaf that is found may be an earlier one of the same path. Where no name has a slash and no two
    functions beside each other have one path, every path leads to its own leaf. Nothing is assumed of
    the source, and other scripts of the page do not matter. -/
theorem analyse_find? {tree tree' : FunctionTree} {script : ScriptSource} {withAnonymous : Bool}
    {report : AnalysisReport} (hfile : script.name ≠ "") (hplain : '/' ∉ script.name.toList)
    (hok : tree.analyse script withAnonymous = .ok (tree', report)) :
    ∃ root, tree'.scriptRoot? script.name = some root ∧ root.path = Path.ofScript script.name ∧
      (∀ parent ∈ root.walk, ∀ leaf ∈ parent.children, ∃ name, leaf.path = Path.child parent.path name) ∧
      (∀ parent leaf name, root.Leads parent → leaf ∈ parent.children →
        leaf.path = Path.child parent.path name → '/' ∉ name.toList →
        ∃ found ∈ parent.children, tree'.find? leaf.path = some found ∧ found.path = leaf.path) ∧
      ((∀ leaf ∈ root.walk, leaf.Clear) → ∀ leaf ∈ root.walk, tree'.find? leaf.path = some leaf) := by
  obtain ⟨root, hroot, hpath, hnames⟩ := analyse_namesChildren hok
  have hbelow (l : Leaf) (hleads : root.Leads l) :
      ∃ more, Path.segments l.path = "" :: script.name :: more := by
    obtain ⟨more, hmore⟩ := hleads.segments
    exact ⟨more, by rw [hmore, hpath, Path.segments_ofScript hplain]; rfl⟩
  refine ⟨root, hroot, hpath, hnames, ?_, fun hclear leaf hleaf => ?_⟩
  · intro parent leaf name hleads hleaf hname hplain'
    obtain ⟨more, hmore⟩ := hbelow parent hleads
    have hsegments : Path.segments leaf.path = "" :: script.name :: (more ++ [name]) := by
      rw [hname, Path.segments_child, Path.segments_of_plain hplain', hmore]
      rfl
    obtain ⟨sibling, hsibling, hfind, hsame⟩ := hleads.find?_child hleaf hname hplain'
    refine ⟨sibling, hsibling, ?_, hsame⟩
    rw [find?_of_segments hfile hroot hsegments, hfind]
  · have hleads := Leaf.leads_of_clear hclear hleaf
    obtain ⟨more, hmore⟩ := hbelow leaf hleads
    rw [find?_of_segments hfile hroot hmore, hleads.find?_self]

end FunctionTree

namespace Sample

/-- A leaf without anything but a path and children. -/
def leafWith (path : String) (children : List Leaf) : Leaf := { Leaf.new path ⟨0, 0⟩ with children := children }

def declaring : ScriptSource := ⟨"a.js", "function a()\x7b\x7d"⟩

/-- A function with another one inside of it. -/
def enclosing : ScriptSource := ⟨"a.js", "function a()\x7bfunction b()\x7b\x7d\x7d"⟩

/-- A script with a function whose name has a slash in it. -/
def slashInKey : ScriptSource := ⟨"app.js", "var o = \x7b \"a/b\": function () \x7b\x7d \x7d;"⟩

/-- The paths of the leaves of an analysed script, each with those of its children. -/
def walkedPaths (script : ScriptSource) : Option (List (String × List String)) :=
  ((FunctionTree.empty "page").analyse script false).toOption.bind fun analysed =>
    (analysed.1.scriptRoot? script.name).map fun root =>
      root.walk.map fun leaf => (leaf.path, leaf.children.map Leaf.path)

/-- The paths of the functions of an analysed script, and whether they are found again. -/
def foundPaths (script : ScriptSource) : Option (List (String × Bool)) :=
  ((FunctionTree.empty "page").analyse script false).toOption.map fun analysed =>
    analysed.1.functions.map fun leaf => (leaf.path, (analysed.1.find? leaf.path).isSome)

end Sample

namespace FunctionTree

theorem analyse_find?_enclosed :
    ∃ tree report root parent leaf, (empty "page").analyse Sample.enclosing false = .ok (tree, report) ∧
      tree.scriptRoot? "a.js" = some root ∧ parent ∈ root.children ∧ leaf ∈ parent.children ∧
      leaf.path = "/a.js/a/b" ∧
      (∃ found ∈ parent.children, tree.find? leaf.path = some found ∧ found.path = leaf.path) ∧
      tree.find? leaf.path = some leaf := by
  have hpaths : Sample.walkedPaths Sample.enclosing =
      some [("/a.js", ["/a.js/a"]), ("/a.js/a", ["/a.js/a/b"]), ("/a.js/a/b", [])] := by decide +kernel
  rw [Sample.walkedPaths] at hpaths
  cases hok : (empty "page").analyse Sample.enclosing false with
  | error e =>
    rw [hok] at hpaths
    cases hpaths
  | ok analysed =>
    obtain ⟨tree, report⟩ := analysed
    rw [hok] at hpaths
    obtain ⟨root, hroot, hpath, _, hfind, hself⟩ := analyse_find? (by decide) (by decide) hok
    have hwalked : root.walk.map (fun leaf => (leaf.path, leaf.children.map Leaf.path)) =
        [("/a.js", ["/a.js/a"]), ("/a.js/a", ["/a.js/a/b"]), ("/a.js/a/b", [])] := by
      simpa [Except.toOption, hroot] using hpaths
    have hcases (l : Leaf) (hl : l ∈ root.walk) :
        l.path = "/a.js" ∧ l.children.map Leaf.path = ["/a.js/a"] ∨
          l.path = "/a.js/a" ∧ l.children.map Leaf.path = ["/a.js/a/b"] ∨
            l.path = "/a.js/a/b" ∧ l.children.map Leaf.path = [] := by
      have hmem := List.mem_map_of_mem (f := fun l : Leaf => (l.path, l.children.map Leaf.path)) hl
      rw [hwalked] at hmem
      simpa using hmem
    have hclear (l : Leaf) (hl : l ∈ root.walk) : l.Clear := by
      rcases hcases l hl with ⟨hl, hbelow⟩ | ⟨hl, hbelow⟩ | ⟨hl, hbelow⟩
      · exact .of_paths hbelow (List.forall_mem_singleton.mpr ⟨"a", by rw [hl]; decide, by decide⟩) (by decide)
      · exact .of_paths hbelow (List.forall_mem_singleton.mpr ⟨"b", by rw [hl]; decide, by decide⟩) (by decide)
      · exact .of_paths hbelow (fun _ h => absurd h List.not_mem_nil) (by decide)
    rw [Leaf.walk_eq, List.map_cons] at hwalked
    obtain ⟨hhead, htail⟩ := List.cons.inj hwalked
    obtain ⟨parent, hchildren, hparent⟩ := List.map_eq_singleton_iff.mp (Prod.mk.inj hhead).2
    rw [hchildren, List.flatMap_singleton, Leaf.walk_eq, List.map_cons] at htail
    obtain ⟨leaf, hbelow, hleaf⟩ := List.map_eq_singleton_iff.mp (Prod.mk.inj (List.cons.inj htail).1).2
    have hparentMem : parent ∈ root.children := hchildren ▸ List.mem_singleton_self parent
    have hleafMem : leaf ∈ parent.children := hbelow ▸ List.mem_singleton_self leaf
    have hparentWalk : parent ∈ root.walk := Leaf.mem_walk_of_child hparentMem parent.self_mem_walk
    have hleafWalk : leaf ∈ root.walk :=
      Leaf.mem_walk_of_child hparentMem (Leaf.mem_walk_of_child hleafMem leaf.self_mem_walk)
    have hname : leaf.path = Path.child parent.path "b" := by
      rw [hleaf, hparent]
      decide
    exact ⟨tree, report, root, parent, leaf, rfl, hroot, hparentMem, hleafMem, hleaf,
      hfind parent leaf "b" (Leaf.leads_of_clear hclear hparentWalk) hleafMem hname (by decide),
      hself hclear leaf hleafWalk⟩

theorem find?_slash_in_key :
    ∃ tree report, (empty "page").analyse Sample.slashInKey false = .ok (tree, report) ∧
      ∃ leaf ∈ tree.functions, leaf.path = "/app.js/o.a/b" ∧ tree.find? leaf.path = none := by
  have hfound : Sample.foundPaths Sample.slashInKey = some [("/app.js/o.a/b", false)] := by decide +kernel
  rw [Sample.foundPaths] at hfound
  cases hok : (empty "page").analyse Sample.slashInKey false with
  | error e =>
    rw [hok] at hfound
    cases hfound
  | ok analysed =>
    rw [hok] at hfound
    have hpaths := Option.some.inj hfound
    obtain ⟨leaf, rest, hfunctions, hleaf, _⟩ := List.map_eq_cons_iff.mp hpaths
    obtain ⟨hpath, hnone⟩ := Prod.mk.inj hleaf
    refine ⟨analysed.1, analysed.2, rfl, leaf, ?_, hpath, by simpa using hnone⟩
    rw [hfunctions]
    exact List.mem_cons_self

end FunctionTree
end PageProbe
