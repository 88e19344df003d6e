import Mathlib.Data.List.Induction
import PageProbe.Proofs.Page.Queue
import PageProbe.Proofs.Tree.Search

namespace PageProbe

theorem Path.ofScript_inj {file file' : String} : ofScript file = ofScript file' ↔ file = file' :=
  String.append_right_inj "/"

namespace FunctionTree

/-- The tree after one more script, with or without the functions that have no name. A script that can not
    be analysed leaves the tree as it is. -/
def withScript (tree : FunctionTree) (turn : ScriptSource × Bool) : FunctionTree :=
  match tree.analyse turn.1 turn.2 with
  | .ok (tree', _) => tree'
  | .error _ => tree

/-- The tree after more scripts, one after another. -/
def withScripts (tree : FunctionTree) (turns : List (ScriptSource × Bool)) : FunctionTree :=
  turns.foldl withScript tree

theorem withScripts_concat (tree : FunctionTree) (turns : List (ScriptSource × Bool))
    (turn : ScriptSource × Bool) :
    tree.withScripts (turns ++ [turn]) = (tree.withScripts turns).withScript turn := by
  rw [withScripts, List.foldl_append]
  rfl

/-- An analysis puts a root for its script in the place of an earlier one, or behind all others, and
    resolves it in the tree that it leaves. -/
theorem analyse_resolved {tree tree' : FunctionTree} {script : ScriptSource} {withAnonymous : Bool}
    {report : AnalysisReport} (hok : tree.analyse script withAnonymous = .ok (tree', report)) :
    ∃ before root after, tree'.Holds script.name before root after ∧ root.ResolvedIn tree' ∧
      ((∃ old, tree.Holds script.name before old after) ∨
        (∀ l ∈ tree.children, l.path ≠ Path.ofScript script.name) ∧ before = tree.children ∧ after = []) := by
  obtain ⟨program, -, hprogram⟩ := analyse_eq_ok_iff.mp hok
  obtain ⟨found, hfound, htree', -⟩ := analyseProgram_eq_ok hprogram
  obtain ⟨hpath, hunused⟩ := ofProgram_unused hfound
  obtain ⟨before, after, hholds, hplace⟩ := tree.upsertRoot_cases hpath
  obtain ⟨root, hroot, hresolved⟩ := hholds.resolveCalls_resolved
    (fun l hl u hu => by rw [hunused l hl] at hu; cases hu) (program.calls script.source)
  rw [← htree'] at hroot hresolved
  exact ⟨before, root, after, hroot, hresolved, hplace⟩

/-- One more script changes nothing, or adds one root that is resolved, and may take the place of another
    of its path. -/
theorem withScript_cases (tree : FunctionTree) (turn : ScriptSource × Bool) :
    tree.withScript turn = tree ∨
      ∃ root, root.path = Path.ofScript turn.1.name ∧ root ∈ (tree.withScript turn).children ∧
        root.ResolvedIn (tree.withScript turn) ∧
        (∀ l ∈ (tree.withScript turn).children, l = root ∨ l ∈ tree.children) ∧
        ((∀ l ∈ tree.children, l.path ≠ Path.ofScript turn.1.name) →
          (tree.withScript turn).children = tree.children ++ [root]) := by
  -- `rw` would derive an equation first, and compare analyses with one another for it
  delta withScript
  split
  · next tree' report hok =>
    obtain ⟨before, root, after, hholds, hresolved, hplace⟩ := analyse_resolved hok
    refine .inr ⟨root, eq_of_beq hholds.root, ?_, hresolved, ?_, ?_⟩
    · rw [hholds.children]
      exact List.mem_append_right before List.mem_cons_self
    · intro l hl
      rw [hholds.children] at hl
      rcases hplace with ⟨old, hold⟩ | ⟨-, rfl, rfl⟩
      · rw [hold.children]
        simp only [List.mem_append, List.mem_cons] at hl ⊢
        tauto
      · rcases List.mem_append.mp hl with hl | hl
        · exact .inr hl
        · exact .inl (List.mem_singleton.mp hl)
    · intro hnew
      rcases hplace with ⟨old, hold⟩ | ⟨-, rfl, rfl⟩
      · refine absurd (eq_of_beq hold.root) (hnew old ?_)
        rw [hold.children]
        exact List.mem_append_right before List.mem_cons_self
      · exact hholds.children
  · exact .inl rfl

section
variable (page : String)

/-- Every root of a page comes from one of its scripts, and is resolved in the tree that this script has
    left. -/
theorem withScripts_resolved (turns : List (ScriptSource × Bool)) :
    ∀ root ∈ ((empty page).withScripts turns).children, ∃ earlier turn later,
      turns = earlier ++ turn :: later ∧ root.path = Path.ofScript turn.1.name ∧
        root ∈ ((empty page).withScripts (earlier ++ [turn])).children ∧
        root.ResolvedIn ((empty page).withScripts (earlier ++ [turn])) := by
  induction turns using List.reverseRecOn with
  | nil => exact fun root hroot => nomatch hroot
  | append_singleton turns turn ih =>
    intro root hroot
    have hearlier (hroot : root ∈ ((empty page).withScripts turns).children) : ∃ earlier turn' later,
        turns ++ [turn] = earlier ++ turn' :: later ∧ root.path = Path.ofScript turn'.1.name ∧
          root ∈ ((empty page).withScripts (earlier ++ [turn'])).children ∧
          root.ResolvedIn ((empty page).withScripts (earlier ++ [turn'])) := by
      obtain ⟨earlier, turn', later, rfl, hpath, hmem, hresolved⟩ := ih root hroot
      exact ⟨earlier, turn', later ++ [turn], by simp, hpath, hmem, hresolved⟩
    rw [withScripts_concat] at hroot
    rcases withScript_cases ((empty page).withScripts turns) turn with hsame |
      ⟨new, hpath, hmem, hresolved, hroots, -⟩
    · rw [hsame] at hroot
      exact hearlier hroot
    · rcases hroots root hroot with rfl | hroot
      · rw [← withScripts_concat] at hmem hresolved
        exact ⟨turns, turn, [], rfl, hpath, hmem, hresolved⟩
      · exact hearlier hroot

/-- Scripts of different names only ever add roots behind the others. -/
theorem withScripts_prefix {front back : List (ScriptSource × Bool)}
    (hnames : ((front ++ back).map (·.1.name)).Nodup) :
    ((empty page).withScripts front).children <+: ((empty page).withScripts (front ++ back)).children := by
  induction back using List.reverseRecOn with
  | nil => exact ⟨[], by rw [List.append_nil, List.append_nil]⟩
  | append_singleton back turn ih =>
    rw [← List.append_assoc, List.map_append, List.nodup_append] at hnames
    obtain ⟨hbefore, -, hdistinct⟩ := hnames
    have hnew : ∀ l ∈ ((empty page).withScripts (front ++ back)).children,
        l.path ≠ Path.ofScript turn.1.name := by
      intro l hl hpath
      obtain ⟨earlier, turn', later, hturns, hroot, -⟩ := withScripts_resolved page _ l hl
      have hmem : turn'.1.name ∈ (front ++ back).map (·.1.name) := by
        rw [hturns]
        exact List.mem_map_of_mem (List.mem_append_right earlier List.mem_cons_self)
      exact hdistinct _ hmem _ (List.mem_singleton_self _) (Path.ofScript_inj.mp (hroot.symm.trans hpath))
    refine (ih hbefore).trans ?_
    rw [← List.append_assoc, withScripts_concat]
    rcases withScript_cases ((empty page).withScripts (front ++ back)) turn with hsame |
      ⟨root, -, -, -, -, hlast⟩
    · exact ⟨[], by rw [List.append_nil, hsame]⟩
    · rw [hlast hnew]
      exact List.prefix_append _ _

/-- Links stay good. Whatever scripts of different names are analysed one after another, each with or
    without functions that have no name, and whichever of them fail: a record with a path is not of a
    function that is called where it is written, and its path is the canonical path of a function that
    stands in the tree as it is by now. The function has the name of the record, and stands at most two
    levels deeper than the leaf of the record says about itself. -/
theorem withScripts_links {turns : List (ScriptSource × Bool)} (hnames : (turns.map (·.1.name)).Nodup) :
    let tree := (empty page).withScripts turns
    ∀ root ∈ tree.children, ∀ leaf ∈ root.walk, ∀ u ∈ leaf.usedFunctions, ∀ path, u.path = some path →
      u.immediatelyInvoked = false ∧ ∃ depth declared, tree.Stands depth declared ∧
        declared.path = path ∧ u.name ∈ declared.names ∧ 2 ≤ depth ∧
        depth ≤ (leaf.nestedDegree + 1) + 1 := by
  intro tree root hroot leaf hleaf u hu path hpath
  obtain ⟨earlier, turn, later, hturns, -, -, hresolved⟩ := withScripts_resolved page turns root hroot
  have hkept : ((empty page).withScripts (earlier ++ [turn])).children <+: tree.children := by
    rw [hturns, List.append_cons] at hnames
    have hprefix := withScripts_prefix page hnames
    rwa [← List.append_cons, ← hturns] at hprefix
  rw [hresolved leaf hleaf u hu] at hpath
  obtain ⟨hinvoked, declared, hfound, hdeclared⟩ := pathFor_eq_some hpath
  obtain ⟨depth, hstands, hname, hlow, hhigh⟩ := findDeclaration?_stands (Nat.succ_pos _) hfound
  exact ⟨hinvoked, depth, declared, hstands.mono fun _ h => hkept.subset h, hdeclared, hname, hlow, hhigh⟩

end
end FunctionTree

namespace Sample

def declaringF : ScriptSource := ⟨"b.js", "function f()\x7b\x7d"⟩

/-- A script that calls what another one declares. -/
def callingF : ScriptSource := ⟨"a.js", "f()"⟩

/-- Of the calls on the roots of a tree: whether they are called where they are written, their paths, and
    the paths that a search in the tree finds for them. -/
def callsOnRoots (tree : FunctionTree) : List (Bool × Option String × Option String) :=
  tree.children.flatMap fun root => root.usedFunctions.map fun u =>
    (u.immediatelyInvoked, u.path, (tree.findDeclaration? u.name (root.nestedDegree + 1)).map Leaf.path)

theorem exists_of_mem_callsOnRoots {tree : FunctionTree} {call : Bool × Option String × Option String}
    (h : call ∈ callsOnRoots tree) :
    ∃ root ∈ tree.children, ∃ u ∈ root.usedFunctions, u.immediatelyInvoked = call.1 ∧
      u.path = call.2.1 ∧
      (tree.findDeclaration? u.name (root.nestedDegree + 1)).map Leaf.path = call.2.2 := by
  obtain ⟨root, hroot, h⟩ := List.mem_flatMap.mp h
  obtain ⟨u, hu, rfl⟩ := List.mem_map.mp h
  exact ⟨root, hroot, u, hu, rfl, rfl, rfl⟩

end Sample

theorem FunctionTree.withScripts_links_declared :
    let tree := (empty "page").withScripts [(Sample.declaringF, false), (Sample.callingF, true)]
    ∃ root ∈ tree.children, ∃ u ∈ root.usedFunctions, u.path = some "/b.js/f" ∧
      u.immediatelyInvoked = false ∧ ∃ depth declared, tree.Stands depth declared ∧
        declared.path = "/b.js/f" ∧ u.name ∈ declared.names ∧ 2 ≤ depth ∧
        depth ≤ (root.nestedDegree + 1) + 1 := by
  intro tree
  have hcalls : (false, some "/b.js/f", some "/b.js/f") ∈ Sample.callsOnRoots tree := by decide +kernel
  obtain ⟨root, hroot, u, hu, -, hpath, -⟩ := Sample.exists_of_mem_callsOnRoots hcalls
  exact ⟨root, hroot, u, hu, hpath,
    withScripts_links "page" (by decide) root hroot root root.self_mem_walk u hu _ hpath⟩

namespace PageAnalysis

theorem next_tree {p : PageAnalysis} {script : ScriptSource} {rest : List ScriptSource}
    (hqueue : p.queue = script :: rest) :
    p.next.1.tree = p.tree.withScript (script, p.withAnonymous) ∧
      p.next.1.withAnonymous = p.withAnonymous := by
  rw [next, hqueue]
  delta FunctionTree.withScript
  dsimp only
  cases p.tree.analyse script p.withAnonymous <;> exact ⟨rfl, rfl⟩

theorem all_tree (p : PageAnalysis) :
    p.all.tree = p.tree.withScripts (p.queue.map (·, p.withAnonymous)) := by
  generalize hqueue : p.queue = queue
  induction queue generalizing p with
  | nil =>
    rw [all_of_empty hqueue]
    rfl
  | cons script rest ih =>
    obtain ⟨htree, hoption⟩ := next_tree hqueue
    rw [all_of_cons hqueue, ih p.next.1 (next_of_cons hqueue).1, htree, hoption]
    rfl

theorem populate_all_tree (page : String) (withAnonymous : Bool) (scripts : List ScriptSource) :
    ((empty page withAnonymous).populate scripts).all.tree =
      (FunctionTree.empty page).withScripts (scripts.map (·, withAnonymous)) := by
  rw [all_tree, populate_empty]
  rfl

/-- What has become of the calls of a page when all of its scripts have had their turn. Every root comes
    from one of the scripts, and its records have the paths of what is found among the declarations of this
    script and the earlier ones, as the page stood when the script had its turn. So a call without a path
    finds nothing there, but the page may well declare its function in a later script: what all scripts
    declare is what these declare and, behind that, what the later ones do. Nothing is assumed of the
    scripts; if names come twice, the page of that time may have had other roots for them than in the
    end. -/
theorem all_resolved (page : String) (withAnonymous : Bool) (scripts : List ScriptSource) :
    let final := ((empty page withAnonymous).populate scripts).all.tree
    ∀ root ∈ final.children, ∃ earlier script later, scripts = earlier ++ script :: later ∧
      root.path = Path.ofScript script.name ∧
      let seen := ((empty page withAnonymous).populate (earlier ++ [script])).all.tree
      root ∈ seen.children ∧
      (∀ leaf ∈ root.walk, ∀ u ∈ leaf.usedFunctions, u.immediatelyInvoked = false →
        u.path = (seen.findDeclaration? u.name (leaf.nestedDegree + 1)).map Leaf.path) ∧
      ((scripts.map (·.name)).Nodup → ∃ unseen, final.children = seen.children ++ unseen ∧
        ∀ name limit, final.findDeclaration? name limit =
          (seen.findDeclaration? name limit).or
            (FunctionTree.findDeclaration? ⟨page, unseen⟩ name limit)) := by
  simp only [populate_all_tree]
  intro root hroot
  obtain ⟨front, turn, back, hturns, hpath, hmem, hresolved⟩ :=
    FunctionTree.withScripts_resolved page _ root hroot
  obtain ⟨earlier, rest, rfl, rfl, hrest⟩ := List.map_eq_append_iff.mp hturns
  obtain ⟨script, later, rfl, rfl, rfl⟩ := List.map_eq_cons_iff.mp hrest
  have hseen : (earlier ++ [script]).map (·, withAnonymous) =
      earlier.map (·, withAnonymous) ++ [(script, withAnonymous)] := List.map_append
  rw [← hseen] at hmem hresolved
  refine ⟨earlier, script, later, rfl, hpath, hmem, fun leaf hleaf u hu hinvoked => ?_, fun hnames => ?_⟩
  · rw [hresolved leaf hleaf u hu, FunctionTree.pathFor, hinvoked]
    rfl
  · have hsplit : (earlier ++ script :: later).map (·, withAnonymous) =
        (earlier ++ [script]).map (·, withAnonymous) ++ later.map (·, withAnonymous) := by simp
    have hnames' : (((earlier ++ [script]).map (·, withAnonymous) ++ later.map (·, withAnonymous)).map
        (·.1.name)).Nodup := by
      rw [← hsplit, List.map_map]
      exact hnames
    obtain ⟨unseen, hunseen⟩ := FunctionTree.withScripts_prefix page hnames'
    rw [← hsplit] at hunseen
    refine ⟨unseen, hunseen.symm, fun name limit => ?_⟩
    exact FunctionTree.findDeclaration?_of_append hunseen.symm name limit

theorem all_resolved_forward :
    let final := ((empty "page" false).populate [Sample.callingF, Sample.declaringF]).all.tree
    ∃ root ∈ final.children, ∃ u ∈ root.usedFunctions, u.immediatelyInvoked = false ∧ u.path = none ∧
      (final.findDeclaration? u.name (root.nestedDegree + 1)).map Leaf.path = some "/b.js/f" := by
  intro final
  have hcalls : (false, none, some "/b.js/f") ∈ Sample.callsOnRoots final := by decide +kernel
  exact Sample.exists_of_mem_callsOnRoots hcalls

theorem all_resolved_backward :
    let final := ((empty "page" false).populate [Sample.declaringF, Sample.callingF]).all.tree
    ∃ root ∈ final.children, ∃ u ∈ root.usedFunctions, u.path = some "/b.js/f" ∧
      ∃ earlier script later, [Sample.declaringF, Sample.callingF] = earlier ++ script :: later ∧
        u.path = (((empty "page" false).populate (earlier ++ [script])).all.tree.findDeclaration? u.name
          (root.nestedDegree + 1)).map Leaf.path := by
  intro final
  have hcalls : (false, some "/b.js/f", some "/b.js/f") ∈ Sample.callsOnRoots final := by decide +kernel
  obtain ⟨root, hroot, u, hu, hinvoked, hpath, -⟩ := Sample.exists_of_mem_callsOnRoots hcalls
  obtain ⟨earlier, script, later, hscripts, -, -, hresolved, -⟩ := all_resolved "page" false _ root hroot
  exact ⟨root, hroot, u, hu, hpath, earlier, script, later, hscripts,
    hresolved root root.self_mem_walk u hu hinvoked⟩

end PageAnalysis
end PageProbe
