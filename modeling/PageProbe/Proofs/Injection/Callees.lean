import PageProbe.Proofs.Page.Delivery
import PageProbe.Proofs.Tree.Addressing

namespace PageProbe

namespace Path

theorem plain_first (path : String) : '/' ∉ (first path).toList := by
  rw [first, String.toList_ofList]
  intro hslash
  cases hpieces : split (path.toList.dropWhile (· == '/')) with
  | nil => simp [hpieces] at hslash
  | cons piece pieces =>
    rw [hpieces, List.headD_cons] at hslash
    have hmem : piece ∈ split (path.toList.dropWhile (· == '/')) := hpieces ▸ List.mem_cons_self
    simpa using Text.stop_of_mem_split hmem '/' hslash

/-- A path with a segment behind the name of its script is not that of the script. -/
theorem ne_ofScript_of_long {path : String} (h : 3 ≤ (segments path).length) :
    path ≠ ofScript (first path) := by
  intro heq
  have hshort : (segments path).length = 2 := by
    rw [heq, segments_ofScript (plain_first path)]
    rfl
  omega

end Path

namespace FunctionTree

variable {tree : FunctionTree} {leaf d : Leaf}

/-- What is found for a path is the root of its script if the path is that of the script, and a function
    otherwise. -/
theorem root_or_function_of_find? {path : String} (h : tree.find? path = some leaf) :
    (path = Path.ofScript (Path.first path) → tree.scriptRoot? (Path.first path) = some leaf) ∧
      (path ≠ Path.ofScript (Path.first path) → leaf ∈ tree.functions) := by
  rw [find?] at h
  split at h
  · cases h
  obtain ⟨root, hroot, hfind⟩ := Option.bind_eq_some_iff.mp h
  have hpath : root.path = Path.ofScript (Path.first path) := by
    simpa using List.find?_some hroot
  rw [Leaf.find?_eq, hpath] at hfind
  constructor
  · intro hscript
    rw [if_pos hscript.symm] at hfind
    exact hroot.trans hfind
  · intro hscript
    rw [if_neg (Ne.symm hscript)] at hfind
    split at hfind
    · cases hfind
    obtain ⟨c, hc, hfind⟩ := Option.bind_eq_some_iff.mp hfind
    refine List.mem_flatMap.mpr ⟨root, List.mem_of_find?_eq_some hroot, ?_⟩
    rw [Leaf.walk_eq, List.drop_one, List.tail_cons]
    exact List.mem_flatMap.mpr ⟨c, List.mem_of_find?_eq_some hc, (Leaf.find?_eq_some hfind).1⟩

/-- The leaves around a leaf are functions, and have paths that its own goes on behind. -/
theorem function_of_mem_dependencies (hd : d ∈ tree.dependencies leaf) :
    d ∈ tree.functions ∧ d.path ≠ Path.ofScript (Path.first d.path) ∧
      ∃ more, more ≠ [] ∧ Path.segments leaf.path = Path.segments d.path ++ more := by
  obtain ⟨i, hi, hfind⟩ := List.mem_filterMap.mp hd
  obtain ⟨hlow, hhigh⟩ : 3 ≤ i ∧ i < (Path.segments leaf.path).length := by
    rw [List.range_eq_range', List.drop_range', List.mem_range'_1] at hi
    omega
  obtain ⟨_, _, _, _, hpath⟩ := find?_eq_some hfind
  have hlength : ((Path.segments leaf.path).take i).length = i :=
    List.length_take_of_le (Nat.le_of_lt hhigh)
  have hsegments : Path.segments d.path = (Path.segments leaf.path).take i := by
    rw [hpath]
    refine Path.segments_join (fun hnil => ?_) fun s hs =>
      Path.plain_of_mem_segments (List.mem_of_mem_take hs)
    rw [hnil] at hlength
    exact absurd hlength (by simp; omega)
  have hlong : d.path ≠ Path.ofScript (Path.first d.path) :=
    Path.ne_ofScript_of_long (by rw [hsegments, hlength]; exact hlow)
  refine ⟨(root_or_function_of_find? hfind).2 (hpath ▸ hlong), hlong,
    (Path.segments leaf.path).drop i, ?_, by rw [hsegments, List.take_append_drop]⟩
  simpa using hhigh

end FunctionTree

namespace Harness

/-- The line of a harness that binds a function without a name. -/
def bindingLine (callee source : String) : String := "var " ++ callee ++ " = " ++ source ++ ";"

/-- The line of a harness that calls its function. -/
def callLine (callee : String) (args : List Json.Value) : String :=
  "           returnedValue: " ++ (callee ++ "(" ++ renderArguments args ++ ")") ++ ","

/-- Of the lines of a harness one is the call of its function, and one before it the binding of a function
    without a name. The other lines are the same for all functions of a level. -/
theorem exists_lines_eq (level : Nat) {t : Tuple} {args : List Json.Value} (hargs : t.args = some args) :
    ∃ front middle back : List String, ∀ callee source, (Harness.mk callee level source).lines t =
      front ++ (source.map (bindingLine callee)).toList ++ middle ++ [callLine callee args] ++ back := by
  obtain ⟨uuid, tupleArgs⟩ := t
  obtain rfl : tupleArgs = some args := hargs
  -- The lines around a nameless call are read off the harness of any function.
  let any : List String := (Harness.mk "" level none).lines ⟨uuid, some args⟩
  by_cases htop : level ≤ 1
  · have htop' (callee : String) (source : Option String) :
        (Harness.mk callee level source).isTopLevel = true := decide_eq_true htop
    refine ⟨any.take 1, (any.drop 1).take 6, any.drop 8, fun callee source => ?_⟩
    simp only [any, lines, htop', if_true]
    cases source <;> rfl
  · have hnested (callee : String) (source : Option String) :
        (Harness.mk callee level source).isTopLevel = false := decide_eq_false htop
    refine ⟨[], any.take 6, any.drop 7, fun callee source => ?_⟩
    simp only [any, lines, hnested, Bool.false_eq_true, if_false]
    cases source <;> rfl

/-- The harness of a baseline is the same for all functions of a level, and calls nothing. -/
theorem lines_of_baseline (level : Nat) {t : Tuple} (hargs : t.args = none) (callee callee' : String)
    (source source' : Option String) :
    (Harness.mk callee level source).lines t = (Harness.mk callee' level source').lines t := by
  obtain ⟨uuid, tupleArgs⟩ := t
  obtain rfl : tupleArgs = none := hargs
  cases source <;> cases source' <;> rfl

/-- A harness is made for a leaf whose name can be called. A function without a name is bound to the name
    that it is called by. -/
theorem ofLeaf_eq_ok {leaf : Leaf} {h : Harness} (hok : ofLeaf leaf = .ok h) :
    isCallable leaf.name = true ∧ h = ⟨leaf.name, leaf.nestedDegree - 1,
      if leaf.isAnonymous then leaf.functionSource.head? else none⟩ := by
  rw [ofLeaf] at hok
  split at hok
  · next hcallable => exact ⟨hcallable, (Except.ok.inj hok).symm⟩
  · cases hok

end Harness

namespace Leaf

/-- What the calls that are spliced for a leaf should keep to: each of them is of a function of the page, by
    a name that can be called, and no function without a name is called but the leaf itself. -/
structure SafelyCalled (tree : FunctionTree) (leaf : Leaf) : Prop where
  /-- No root of a script is called. -/
  functions : ∀ d ∈ leaf :: tree.dependencies leaf,
    d ∈ tree.functions ∧ d.path ≠ Path.ofScript (Path.first d.path)
  callable : ∀ d ∈ leaf :: tree.dependencies leaf, isCallable d.name = true
  named : ∀ d ∈ tree.dependencies leaf, d.isAnonymous = false

variable {tree : FunctionTree} {leaf : Leaf}

/-- Of what is called for a leaf with a callable name only two things can be amiss: the leaf is the root of a
    script, or some function around it has no name of its own, or not one that can be called. -/
theorem safelyCalled_iff {path : String} (hfind : tree.find? path = some leaf)
    (hcallable : isCallable leaf.name = true) :
    leaf.SafelyCalled tree ↔ path ≠ Path.ofScript (Path.first path) ∧
      ∀ d ∈ tree.dependencies leaf, isCallable d.name = true ∧ d.isAnonymous = false := by
  obtain ⟨_, _, _, _, hpath⟩ := FunctionTree.find?_eq_some hfind
  constructor
  · intro h
    exact ⟨hpath ▸ (h.functions leaf List.mem_cons_self).2, fun d hd =>
      ⟨h.callable d (List.mem_cons_of_mem leaf hd), h.named d hd⟩⟩
  · rintro ⟨hscript, haround⟩
    refine ⟨fun d hd => ?_, fun d hd => ?_, fun d hd => (haround d hd).2⟩
    · rcases List.mem_cons.mp hd with rfl | hd
      · exact ⟨(FunctionTree.root_or_function_of_find? hfind).2 hscript, hpath ▸ hscript⟩
      · obtain ⟨hfunction, hpath, -⟩ := FunctionTree.function_of_mem_dependencies hd
        exact ⟨hfunction, hpath⟩
    · rcases List.mem_cons.mp hd with rfl | hd
      · exact hcallable
      · exact (haround d hd).1

/-- A function of the script itself has no functions around it, so that its texts need no special case. -/
theorem insertionsFor_eq {harness : Harness} (hlevel : harness.level = leaf.nestedDegree - 1)
    (dependencyArgs : List (List String)) (t : Tuple) :
    leaf.insertionsFor tree harness dependencyArgs t = ⟨leaf.injectionPoint, harness.render t⟩ ::
      (tree.dependencies leaf).zipIdx.map fun (d, n) =>
        ⟨d.injectionPoint, callStatement d.name ((dependencyArgs[n]?).getD [])⟩ := by
  rw [insertionsFor]
  split
  · next htop =>
    have hshort : (Path.segments leaf.path).length ≤ 3 := by
      have hlevel' : leaf.nestedDegree - 1 ≤ 1 := hlevel ▸ of_decide_eq_true htop
      rw [nestedDegree, Path.depth] at hlevel'
      omega
    rw [FunctionTree.dependencies_of_short hshort]
    rfl
  · rfl

end Leaf

/-- The texts for a target that was chosen call the function that is found for the path, by its name, and
    the functions around it, by theirs. The name of the target can always be called. It is the root of a
    script just for the path of one, and else a function; what is called around it are always functions of
    the page, and never roots. A target without a name is bound to the name that it is called by, and
    before the call. Nothing more is known of the names around it, so that all calls are of functions with
    names to call them by just when the path is not that of a script and the functions around the target
    have such names. Nothing is assumed of the tree, which need not come from scripts. -/
theorem Injector.select_callees {before i : Injector} {tree : FunctionTree} {path : String}
    {dependencyArgs : List (List String)} (hok : before.select tree path dependencyArgs = .ok i) :
    ∃ target leaf, i.target = some target ∧ tree.find? path = some leaf ∧ leaf.path = path ∧
      isCallable leaf.name = true ∧
      (path = Path.ofScript (Path.first path) → tree.scriptRoot? (Path.first path) = some leaf) ∧
      (path ≠ Path.ofScript (Path.first path) → leaf ∈ tree.functions) ∧
      (∀ d ∈ tree.dependencies leaf,
        d ∈ tree.functions ∧ d.path ≠ Path.ofScript (Path.first d.path)) ∧
      (∀ t, target.insertions t = ⟨leaf.injectionPoint, target.harness.render t⟩ ::
        (tree.dependencies leaf).zipIdx.map fun (d, n) =>
          ⟨d.injectionPoint, callStatement d.name ((dependencyArgs[n]?).getD [])⟩) ∧
      (∀ t args, t.args = some args → ∃ front middle back, target.harness.lines t = front ++
        (target.harness.anonymousSource.map (Harness.bindingLine leaf.name)).toList ++ middle ++
          [Harness.callLine leaf.name args] ++ back) ∧
      (leaf.isAnonymous = true → ∃ source ∈ leaf.functionSource,
        target.harness.anonymousSource = some source) ∧
      (leaf.SafelyCalled tree ↔ path ≠ Path.ofScript (Path.first path) ∧
        ∀ d ∈ tree.dependencies leaf, isCallable d.name = true ∧ d.isAnonymous = false) := by
  obtain ⟨leaf, target, hfind, rfl, hharness, -, hpoint, hdependencies⟩ := select_eq_ok hok
  obtain ⟨hcallable, hmade⟩ := Harness.ofLeaf_eq_ok hharness
  obtain ⟨_, _, _, _, hpath⟩ := FunctionTree.find?_eq_some hfind
  obtain ⟨hroot, hfunction⟩ := FunctionTree.root_or_function_of_find? hfind
  refine ⟨target, leaf, rfl, hfind, hpath, hcallable, hroot, hfunction, fun d hd => ?_, fun t => ?_,
    fun t args hargs => ?_, fun hanonymous => ?_, Leaf.safelyCalled_iff hfind hcallable⟩
  · obtain ⟨hfunction, hpath, -⟩ := FunctionTree.function_of_mem_dependencies hd
    exact ⟨hfunction, hpath⟩
  · rw [InjectionTarget.insertions_eq_insertionsFor hpoint hdependencies,
      Leaf.insertionsFor_eq (by rw [hmade])]
  · obtain ⟨front, middle, back, hlines⟩ := Harness.exists_lines_eq (leaf.nestedDegree - 1) hargs
    refine ⟨front, middle, back, ?_⟩
    rw [hmade]
    exact hlines _ _
  · obtain ⟨-, hsource⟩ := Bool.and_eq_true_iff.mp hanonymous
    cases hsources : leaf.functionSource with
    | nil => simp [hsources] at hsource
    | cons source more =>
      exact ⟨source, List.mem_cons_self, by rw [hmade, if_pos hanonymous, hsources, List.head?_cons]⟩

theorem Injector.select_callees_nested :
    ∃ target leaf, Sample.selected.target = some target ∧
      Sample.tree.find? "/a.js/outer/inner" = some leaf ∧ leaf ∈ Sample.tree.functions ∧
      target.insertions ⟨"u", none⟩ = [⟨2, target.harness.render ⟨"u", none⟩⟩, ⟨4, "\nouter(1);\n"⟩] ∧
      leaf.SafelyCalled Sample.tree := by
  have hselect : Injector.empty.select Sample.tree "/a.js/outer/inner" [["1"]] = .ok Sample.selected := rfl
  have hfound : Sample.tree.find? "/a.js/outer/inner" = some Sample.inner := rfl
  obtain ⟨target, leaf, htarget, hfind, -, -, -, hfunction, -, hinsertions, -, -, hsafe⟩ :=
    select_callees hselect
  obtain rfl : Sample.inner = leaf := Option.some.inj (hfound.symm.trans hfind)
  have hscript : "/a.js/outer/inner" ≠ Path.ofScript (Path.first "/a.js/outer/inner") := by decide
  refine ⟨target, Sample.inner, htarget, hfind, hfunction hscript, hinsertions _, hsafe.mpr ⟨hscript, ?_⟩⟩
  have hdependencies : Sample.tree.dependencies Sample.inner = [Sample.outer] := rfl
  rw [hdependencies]
  decide

namespace Sample

/-- A script with a function inside of a method whose name is no name of the script. -/
def dashed : ScriptSource :=
  ⟨"app.js", "var o = \x7b \"a-b\": function () \x7b function inner() \x7b\x7d \x7d \x7d;"⟩

/-- A script with a function inside of a function without a name. -/
def unnamed : ScriptSource := ⟨"app.js", "run(function () \x7b function inner() \x7b\x7d \x7d);"⟩

/-- What is called around a function of an analysed script that can be chosen, and whether it has a name to
    call it by. -/
def calledAround (script : ScriptSource) (withAnonymous : Bool) (path : String) :
    Option (List (String × Bool)) := do
  let (tree, _) ← ((FunctionTree.empty "page").analyse script withAnonymous).toOption
  let _ ← (Injector.empty.select tree path []).toOption
  let leaf ← tree.find? path
  return (tree.dependencies leaf).map fun d => (d.name, isCallable d.name && !d.isAnonymous)

/-- A function of an analysed script is chosen although not all that is called for it has a name to call it
    by. -/
def ChosenUnchecked (script : ScriptSource) (withAnonymous : Bool) (path : String) : Prop :=
  ∃ tree report i leaf, (FunctionTree.empty "page").analyse script withAnonymous = .ok (tree, report) ∧
    Injector.empty.select tree path [] = .ok i ∧ tree.find? path = some leaf ∧ ¬leaf.SafelyCalled tree

private theorem eq_ok_of_toOption {ε α : Type} {x : Except ε α} {a : α} (h : x.toOption = some a) :
    x = .ok a := by
  cases x with
  | error e => cases h
  | ok b => rw [Option.some.inj h]

theorem chosenUnchecked {script : ScriptSource} {withAnonymous : Bool} {path : String}
    {called : List (String × Bool)} (hcalled : calledAround script withAnonymous path = some called)
    (hwrong : path = Path.ofScript (Path.first path) ∨ ∃ c ∈ called, c.2 = false) :
    ChosenUnchecked script withAnonymous path := by
  obtain ⟨⟨tree, report⟩, hok, hcalled⟩ := Option.bind_eq_some_iff.mp hcalled
  obtain ⟨i, hselect, hcalled⟩ := Option.bind_eq_some_iff.mp hcalled
  obtain ⟨leaf, hfind, hcalled⟩ := Option.bind_eq_some_iff.mp hcalled
  obtain rfl : (tree.dependencies leaf).map (fun d => (d.name, isCallable d.name && !d.isAnonymous)) =
      called := Option.some.inj hcalled
  refine ⟨tree, report, i, leaf, eq_ok_of_toOption hok, eq_ok_of_toOption hselect, hfind, fun hsafe => ?_⟩
  obtain ⟨_, _, _, _, hpath⟩ := FunctionTree.find?_eq_some hfind
  rcases hwrong with hscript | ⟨c, hc, hfalse⟩
  · exact (hsafe.functions leaf List.mem_cons_self).2 (hpath.symm ▸ hscript)
  · obtain ⟨d, hd, rfl⟩ := List.mem_map.mp hc
    simp [hsafe.callable d (List.mem_cons_of_mem leaf hd), hsafe.named d hd] at hfalse

end Sample

/-- The root of a script is chosen like a function. The name of a method around a function is not looked at,
    though the method itself could not be chosen by it, and neither is that of a function which no name is
    bound to. -/
theorem Injector.select_callees_unchecked :
    Sample.ChosenUnchecked Sample.declaring false "/a.js" ∧
    Sample.ChosenUnchecked Sample.dashed false "/app.js/o.a-b/inner" ∧
    Sample.ChosenUnchecked Sample.unnamed true "/app.js/AnonymousFunction0/inner" := by
  have hroot : Sample.calledAround Sample.declaring false "/a.js" = some [] := by decide +kernel
  have hdashed : Sample.calledAround Sample.dashed false "/app.js/o.a-b/inner" = some [("o.a-b", false)] := by
    decide +kernel
  have hunnamed : Sample.calledAround Sample.unnamed true "/app.js/AnonymousFunction0/inner" =
      some [("AnonymousFunction0", false)] := by
    decide +kernel
  exact ⟨Sample.chosenUnchecked hroot (.inl (by decide)),
    Sample.chosenUnchecked hdashed (.inr ⟨_, List.mem_singleton_self _, rfl⟩),
    Sample.chosenUnchecked hunnamed (.inr ⟨_, List.mem_singleton_self _, rfl⟩)⟩

end PageProbe
