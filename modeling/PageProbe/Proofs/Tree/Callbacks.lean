import PageProbe.Proofs.Tree.Segments
import PageProbe.Proofs.Tree.Usage

namespace PageProbe

open Script Script.Node

namespace Path

/-- A path without one of its segments. -/
def dropSegment (index : Nat) (path : String) : String := join ((segments path).eraseIdx index)

theorem child_child (path name more : String) :
    child (child path name) more = child path (child name more) := by
  simp [child, String.append_assoc]

/-- A leaf whose name has no slash has one segment of its own in the paths below it. -/
theorem dropSegment_child {path name : String} (hname : '/' ∉ name.toList) (more : String) :
    dropSegment (depth (child path name)) (child (child path name) more) = child path more := by
  have hdepth : depth (child path name) = (segments path).length := by
    rw [depth, segments_child, segments_of_plain hname, List.length_append]
    rfl
  have hdropped : (segments (child (child path name) more)).eraseIdx (segments path).length =
      segments (child path more) := by
    rw [segments_child, segments_child, segments_child, segments_of_plain hname, List.append_assoc,
      List.eraseIdx_append_of_length_le (Nat.le_refl _), Nat.sub_self]
    rfl
  rw [dropSegment, hdepth, hdropped, join_segments]

end Path

example : Path.dropSegment 2 "/a.js/AnonymousFunction0/f" = "/a.js/f" := by decide +kernel

namespace Leaf

mutual
/-- A leaf in which the paths of all leaves are changed. -/
def mapPaths (f : String → String) : Leaf → Leaf
  | leaf@{ children := children, .. } =>
    { leaf with paths := leaf.paths.map f, children := mapPathsAll f children }

def mapPathsAll (f : String → String) : List Leaf → List Leaf
  | [] => []
  | c :: cs => mapPaths f c :: mapPathsAll f cs
end

theorem mapPathsAll_eq (f : String → String) (leaves : List Leaf) :
    mapPathsAll f leaves = leaves.map (mapPaths f) := by
  induction leaves with
  | nil => rfl
  | cons leaf rest ih => rw [mapPathsAll, ih, List.map_cons]

theorem mapPaths_eq (f : String → String) (leaf : Leaf) :
    leaf.mapPaths f =
      { leaf with paths := leaf.paths.map f, children := leaf.children.map (mapPaths f) } := by
  cases leaf
  rw [mapPaths, mapPathsAll_eq]

theorem mapPaths_mapPaths (f g : String → String) (leaf : Leaf) :
    (leaf.mapPaths f).mapPaths g = leaf.mapPaths (g ∘ f) := by
  induction leaf using induction_children with
  | step leaf ih =>
    have hchildren : leaf.children.map (mapPaths g ∘ mapPaths f) = leaf.children.map (mapPaths (g ∘ f)) :=
      List.map_congr_left ih
    simp only [mapPaths_eq _ leaf, mapPaths_eq g, List.map_map, hchildren]

mutual
/-- A leaf in a tree without the functions that have no name. In the place of such a leaf stand its
    children, and its own segment, the last one of its path, is dropped from the paths below it. -/
def withoutAnonymous : Leaf → List Leaf
  | leaf@{ children := children, .. } =>
    match leaf.anonymousEnd with
    | some _ => (withoutAnonymousAll children).map (mapPaths (Path.dropSegment leaf.nestedDegree))
    | none => [{ leaf with children := withoutAnonymousAll children }]

def withoutAnonymousAll : List Leaf → List Leaf
  | [] => []
  | c :: cs => withoutAnonymous c ++ withoutAnonymousAll cs
end

theorem withoutAnonymousAll_eq (leaves : List Leaf) :
    withoutAnonymousAll leaves = leaves.flatMap withoutAnonymous := by
  induction leaves with
  | nil => rfl
  | cons leaf rest ih => rw [withoutAnonymousAll, ih, List.flatMap_cons]

theorem withoutAnonymous_of_named {leaf : Leaf} (h : leaf.anonymousEnd = none) :
    leaf.withoutAnonymous = [{ leaf with children := leaf.children.flatMap withoutAnonymous }] := by
  cases leaf
  obtain rfl := h
  rw [withoutAnonymous, withoutAnonymousAll_eq]

theorem withoutAnonymous_of_anonymous {leaf : Leaf} {stop : Nat} (h : leaf.anonymousEnd = some stop) :
    leaf.withoutAnonymous =
      (leaf.children.flatMap withoutAnonymous).map (mapPaths (Path.dropSegment leaf.nestedDegree)) := by
  cases leaf
  obtain rfl := h
  rw [withoutAnonymous, withoutAnonymousAll_eq]

end Leaf

/-- Leaves below two paths, the first ones with functions without a name among them. Without these both
    are the same leaves, named from their paths on. -/
def SameNamed (path path' : String) (leaves leaves' : List Leaf) : Prop :=
  ∃ below : List Leaf, leaves.flatMap Leaf.withoutAnonymous = below.map (Leaf.mapPaths (Path.child path)) ∧
    leaves' = below.map (Leaf.mapPaths (Path.child path'))

namespace SameNamed

variable {path path' : String} {leaves leaves' more more' : List Leaf}

theorem nil : SameNamed path path' [] [] := ⟨[], rfl, rfl⟩

theorem append (h : SameNamed path path' leaves leaves') (h' : SameNamed path path' more more') :
    SameNamed path path' (leaves ++ more) (leaves' ++ more') := by
  obtain ⟨below, hleaves, rfl⟩ := h
  obtain ⟨below', hmore, rfl⟩ := h'
  exact ⟨below ++ below', by rw [List.flatMap_append, hleaves, hmore, List.map_append],
    (List.map_append ..).symm⟩

/-- The leaf of a function without a name gives way to its children. -/
theorem anonymous {leaf : Leaf} {name : String} {stop : Nat} (hpath : leaf.path = Path.child path name)
    (hname : '/' ∉ name.toList) (hanonymous : leaf.anonymousEnd = some stop)
    (h : SameNamed leaf.path path' leaf.children leaves') : SameNamed path path' [leaf] leaves' := by
  obtain ⟨below, hchildren, rfl⟩ := h
  refine ⟨below, ?_, rfl⟩
  have hdrop : Path.dropSegment leaf.nestedDegree ∘ Path.child leaf.path = Path.child path := by
    funext more
    rw [Leaf.nestedDegree, hpath]
    exact Path.dropSegment_child hname more
  rw [List.flatMap_singleton, Leaf.withoutAnonymous_of_anonymous hanonymous, hchildren, List.map_map]
  refine List.map_congr_left fun leaf _ => ?_
  rw [Function.comp_apply, Leaf.mapPaths_mapPaths, hdrop]

end SameNamed

/-- A scope in which functions without a name do not count, with a path of its own. -/
def Scope.plain (s : Scope) (path : String) : Scope := { s with withAnonymous := false, path := path }

theorem Bound.names_eq (bound : Bound) : ∃ name aliases, bound.names = name :: aliases := by
  cases bound <;> exact ⟨_, _, rfl⟩

theorem Scope.leaf_paths (s : Scope) (bound : Bound) (range : Span) (params : List Node) :
    (s.leaf bound range params).paths = bound.names.map (Path.child s.path) := by
  cases bound <;> rfl

theorem anonymousName_plain (index : Nat) : '/' ∉ (anonymousPrefix ++ Number.natural index).toList := by
  rw [String.toList_append, List.mem_append, Number.natural, String.toList_ofList, not_or]
  refine ⟨by decide, fun h => ?_⟩
  have hdigit := Nat.isDigit_of_mem_toDigits (by decide) (by decide) h
  exact absurd hdigit (by decide)

/-- Only what is bound as an argument without a name has a leaf that gives way. -/
def Bound.isNamed : Bound → Bool
  | .anonymous .. => false
  | _ => true

theorem Scope.leaf_anonymousEnd (s : Scope) {bound : Bound} (h : bound.isNamed = true) (range : Span)
    (params : List Node) : (s.leaf bound range params).anonymousEnd = none := by
  cases bound with
  | anonymous => cases h
  | _ => rfl

namespace SameNamed

variable {s : Scope} {path' : String} {bound : Bound} {range : Span} {params : List Node}
  {children children' : List Leaf}

/-- The leaf of a function with a name stays, and so do its children. -/
theorem named (hbound : bound.isNamed = true)
    (h : SameNamed (s.leaf bound range params).path ((s.plain path').leaf bound range params).path
      children children') :
    SameNamed s.path path' [{ s.leaf bound range params with children := children }]
      [{ (s.plain path').leaf bound range params with children := children' }] := by
  obtain ⟨below, hchildren, rfl⟩ := h
  obtain ⟨name, aliases, hnames⟩ := bound.names_eq
  have hpath (s : Scope) : (s.leaf bound range params).path = Path.child s.path name := by
    rw [Leaf.path, Scope.leaf_paths, hnames]
    rfl
  let leaf : Leaf := { s.leaf bound range params with
    paths := bound.names, children := below.map (Leaf.mapPaths (Path.child name)) }
  have hplaced (s' : Scope) (hleaf : s'.leaf bound range params =
      { s.leaf bound range params with paths := bound.names.map (Path.child s'.path) }) :
      leaf.mapPaths (Path.child s'.path) = { s'.leaf bound range params with
        children := below.map (Leaf.mapPaths (Path.child (s'.leaf bound range params).path)) } := by
    have hcomp : Path.child s'.path ∘ Path.child name = Path.child (Path.child s'.path name) :=
      funext fun more => (Path.child_child s'.path name more).symm
    have hbelow : (below.map (Leaf.mapPaths (Path.child name))).map (Leaf.mapPaths (Path.child s'.path)) =
        below.map (Leaf.mapPaths (Path.child (s'.leaf bound range params).path)) := by
      rw [List.map_map, hpath s', ← hcomp]
      exact List.map_congr_left fun leaf _ => Leaf.mapPaths_mapPaths _ _ leaf
    rw [Leaf.mapPaths_eq, ← hbelow, hleaf]
  have hnamed : ({ s.leaf bound range params with children := children } : Leaf).anonymousEnd = none :=
    s.leaf_anonymousEnd hbound range params
  refine ⟨[leaf], ?_, ?_⟩
  · rw [List.flatMap_singleton, Leaf.withoutAnonymous_of_named hnamed,
      hchildren, List.map_singleton, hplaced s (by cases bound <;> rfl)]
  · rw [List.map_singleton]
    exact congrArg (· :: []) (hplaced (s.plain path') (by cases bound <;> rfl)).symm

end SameNamed

/-- What two runs come to: the same error, or things that are related with the same reports. -/
inductive Indexer.Same (R : α → β → Prop) :
    Except IndexError (α × Tally) → Except IndexError (β × Tally) → Prop where
  | error (e : IndexError) : Same R (.error e) (.error e)
  | ok {a : α} {b : β} {t t' : Tally} (h : R a b) (hreports : t.diagnostics = t'.diagnostics) :
    Same R (.ok (a, t)) (.ok (b, t'))

/-- Two ways to index something that come to the same, however many functions without a name are counted
    on either side. -/
def Indexer.Follows (R : α → β → Prop) (x : Indexer α) (y : Indexer β) : Prop :=
  ∀ t t' : Tally, t.diagnostics = t'.diagnostics → Indexer.Same R (x.run t) (y.run t')

namespace Indexer.Follows

variable {α β γ δ : Type} {R : α → β → Prop} {S : γ → δ → Prop}

theorem pure {a : α} {b : β} (h : R a b) : Indexer.Follows R (pure a) (pure b) :=
  fun _ _ hreports => .ok h hreports

theorem throw (e : IndexError) : Indexer.Follows R (throw e) (throw e) := fun _ _ _ => .error e

theorem bind {x : Indexer α} {y : Indexer β} {f : α → Indexer γ} {g : β → Indexer δ}
    (hxy : Indexer.Follows R x y) (hfg : ∀ a b, R a b → Indexer.Follows S (f a) (g b)) :
    Indexer.Follows S (x >>= f) (y >>= g) := by
  intro t t' hreports
  have hruns := hxy t t' hreports
  rw [StateT.run_bind, StateT.run_bind]
  generalize x.run t = run at hruns ⊢
  generalize y.run t' = run' at hruns ⊢
  cases hruns with
  | error e => exact .error e
  | ok h hreports' => exact hfg _ _ h _ _ hreports'

theorem report (s : Scope) (path : String) (kind : DiagnosticKind) (severity : Severity) (range : Span)
    (message : String) : Indexer.Follows (fun _ _ => True) (s.report kind severity range message)
      ((s.plain path).report kind severity range message) :=
  fun _ _ hreports => .ok trivial (congrArg (· ++ _) hreports)

/-- Counting a function without a name is not seen. -/
theorem nextAnonymous {f : Nat → Indexer γ} {y : Indexer δ} (hf : ∀ index, Indexer.Follows S (f index) y) :
    Indexer.Follows S (nextAnonymous >>= f) y :=
  fun t t' hreports => hf t.anonymous { t with anonymous := t.anonymous + 1 } t' hreports

variable {path path' : String}

theorem append {x y : Indexer (List Leaf)} {x' y' : Indexer (List Leaf)}
    (hx : Indexer.Follows (SameNamed path path') x x') (hy : Indexer.Follows (SameNamed path path') y y') :
    Indexer.Follows (SameNamed path path') (do return (← x) ++ (← y)) (do return (← x') ++ (← y')) :=
  hx.bind fun _ _ hleaves => hy.bind fun _ _ hmore => .pure (hleaves.append hmore)

theorem enclose {s : Scope} {bound : Bound} {range : Span} {params : List Node}
    {inside : Scope → Indexer (List Leaf)} (hbound : bound.isNamed = true)
    (hinside : ∀ (inner : Scope) (path : String),
      (inside inner).Follows (SameNamed inner.path path) (inside (inner.plain path))) :
    (s.enclose bound range params inside).Follows (SameNamed s.path path)
      ((s.plain path).enclose bound range params inside) :=
  (hinside { s with path := (s.leaf bound range params).path } _).bind fun _ _ hchildren =>
    .pure (.named hbound hchildren)

/-- What is inside of a function without a name is found as if the function were not there. -/
theorem encloseAnonymous {s : Scope} {index stop : Nat} {range : Span} {params : List Node}
    {inside : Scope → Indexer (List Leaf)}
    (hinside : ∀ (inner : Scope) (path : String),
      (inside inner).Follows (SameNamed inner.path path) (inside (inner.plain path))) :
    (s.enclose (.anonymous index stop) range params inside).Follows (SameNamed s.path path)
      (inside (s.plain path)) := by
  let leaf := s.leaf (.anonymous index stop) range params
  have hleaf : leaf.anonymousEnd = some stop := rfl
  have hfound := (hinside { s with path := leaf.path } path).bind (S := SameNamed s.path path)
    (f := fun children => Pure.pure [{ leaf with children := children }]) (g := Pure.pure)
    fun _ _ hchildren => .pure (.anonymous rfl (anonymousName_plain index) hleaf hchildren)
  rwa [bind_pure] at hfound

end Indexer.Follows

/-- A function without a name, in parentheses or behind a spread mark. -/
inductive Script.Node.Unnamed : Node → Prop where
  | function {span : Span} {params body : List Node} : Unnamed (.function span false params body)
  | arrow {span : Span} {params body : List Node} : Unnamed (.arrow span params body)
  | paren {span : Span} {inner : Node} (h : Unnamed inner) : Unnamed (.paren span inner)
  | spread {span : Span} {inner : Node} (h : Unnamed inner) : Unnamed (.spread span inner)

theorem Script.Node.Unnamed.of_argument {n : Node} (h : isAnonymousFunction n = true) : Unnamed n := by
  have hbare : Unnamed n.bareArgument := by
    rw [isAnonymousFunction] at h
    generalize n.bareArgument = bare at h ⊢
    cases bare with
    | function _ named =>
      obtain rfl : named = false := by simpa using h
      exact .function
    | arrow => exact .arrow
    | _ => cases h
  cases n with
  | spread => exact .spread (Node.of_unparen (fun _ _ => .paren) hbare)
  | _ => exact Node.of_unparen (fun _ _ => .paren) hbare

theorem reportMembers_follows (s : Scope) (path : String) (ms : List Node) :
    Indexer.Follows (fun _ _ => True) (reportMembers s ms) (reportMembers (s.plain path) ms) := by
  induction ms with
  | nil => exact .pure trivial
  | cons m rest hrest =>
    rw [reportMembers, reportMembers]
    cases reportedMember? m with
    | none => exact hrest
    | some reported => exact (Indexer.Follows.report s path _ _ _ _).bind fun _ _ _ => hrest

/-- Whether functions without a name count or not, the same is found in a node but for these. -/
structure Followed (n : Node) : Prop where
  passed (s : Scope) (path : String) :
    (declared s n).Follows (SameNamed s.path path) (declared (s.plain path) n)
  bound (s : Scope) (path : String) {bound : Bound} (hbound : bound.isNamed = true) :
    (declaredAs s bound n).Follows (SameNamed s.path path) (declaredAs (s.plain path) bound n)
  /-- An argument without a name brings what is declared inside of it, in a leaf of its own or not. -/
  unnamed (s : Scope) (path : String) (index stop : Nat) (h : n.Unnamed) :
    (declaredAs s (.anonymous index stop) n).Follows (SameNamed s.path path) (declared (s.plain path) n)

namespace Followed

variable (s : Scope) (path : String)

theorem all {ns : List Node} (h : ∀ n ∈ ns, Followed n) :
    (declaredAll s ns).Follows (SameNamed s.path path) (declaredAll (s.plain path) ns) := by
  induction ns with
  | nil => exact .pure .nil
  | cons n rest ih =>
    obtain ⟨hn, hrest⟩ := List.forall_mem_cons.mp h
    rw [declaredAll, declaredAll]
    exact (hn.passed s path).append (ih hrest)

theorem option {o : Option Node} (h : ∀ n ∈ o.toList, Followed n) :
    (declaredOption s o).Follows (SameNamed s.path path) (declaredOption (s.plain path) o) := by
  cases o with
  | none => exact .pure .nil
  | some n =>
    rw [declaredOption, declaredOption]
    exact (h n (List.mem_singleton.mpr rfl)).passed s path

/-- The parts of a function. -/
theorem appendAll {ns ms : List Node} (h : ∀ n ∈ ns ++ ms, Followed n) :
    Indexer.Follows (SameNamed s.path path) (do return (← declaredAll s ns) ++ (← declaredAll s ms))
      (do return (← declaredAll (s.plain path) ns) ++ (← declaredAll (s.plain path) ms)) :=
  (all s path fun n hn => h n (List.mem_append_left ms hn)).append
    (all s path fun n hn => h n (List.mem_append_right ns hn))

/-- The parts of a member of an object. -/
theorem appendValue {keyParts : List Node} {value : Node} (h : ∀ n ∈ keyParts ++ [value], Followed n) :
    Indexer.Follows (SameNamed s.path path)
      (do return (← declaredAll s keyParts) ++ (← declared s value))
      (do return (← declaredAll (s.plain path) keyParts) ++ (← declared (s.plain path) value)) :=
  (all s path fun n hn => h n (List.mem_append_left [value] hn)).append
    ((h value List.mem_concat_self).passed s path)

theorem names (stop : Nat) {ns : List Node} (h : ∀ n ∈ ns, ∀ m ∈ n.subtree, Followed m) :
    (declaredNames s stop ns).Follows (SameNamed s.path path) (declaredNames (s.plain path) stop ns) := by
  induction ns with
  | nil => exact .pure .nil
  | cons n rest ih =>
    obtain ⟨hn, hrest⟩ := List.forall_mem_cons.mp h
    have hvisited := ((hn n n.self_mem_subtree).passed s path).append (ih hrest)
    cases n with
    | declarator span binding init =>
      cases binding with
      | name place id =>
        cases init with
        | none => exact hvisited
        | some value =>
          have hvalue := hn value (mem_subtree_of_part (by simp [parts]) value.self_mem_subtree)
          rw [declaredNames, declaredNames]
          split
          · exact (hvalue.bound s path rfl).append (ih hrest)
          · exact (hvalue.passed s path).append (ih hrest)
      | _ => exact hvisited
    | _ => exact hvisited

theorem members (root : Root) {ns : List Node} (h : ∀ n ∈ ns, ∀ m ∈ n.subtree, Followed m) :
    (declaredMembers s root ns).Follows (SameNamed s.path path)
      (declaredMembers (s.plain path) root ns) := by
  induction ns with
  | nil => exact .pure .nil
  | cons n rest ih =>
    obtain ⟨hn, hrest⟩ := List.forall_mem_cons.mp h
    have hpart (p : Node) (hp : p ∈ n.parts) := hn p (mem_subtree_of_part hp p.self_mem_subtree)
    have hvisited := ((hn n n.self_mem_subtree).passed s path).append (ih hrest)
    cases n with
    | property span known keyParts value =>
      cases known with
      | none => exact hvisited
      | some key =>
        rw [declaredMembers, declaredMembers]
        split
        · exact ((hpart value (by simp [parts])).bound s path rfl).append (ih hrest)
        · simpa only [declared, bind_assoc, pure_bind] using hvisited
    | method span keyStart known keyParts f =>
      cases known with
      | none => exact hvisited
      | some key =>
        rw [declaredMembers, declaredMembers]
        exact ((hpart f (by simp [parts])).bound s path rfl).append (ih hrest)
    | _ => exact hvisited

/-- The arguments of a call, with those without a name counted or not. -/
theorem arguments (stop : Nat) {ns : List Node} (h : ∀ n ∈ ns, Followed n) :
    (declaredArguments s stop ns).Follows (SameNamed s.path path) (declaredAll (s.plain path) ns) := by
  induction ns with
  | nil => exact .pure .nil
  | cons n rest ih =>
    obtain ⟨hn, hrest⟩ := List.forall_mem_cons.mp h
    rw [declaredArguments, declaredAll]
    split
    · rename_i hanonymous
      exact .nextAnonymous fun index =>
        (hn.unnamed s path index stop (.of_argument hanonymous)).append (ih hrest)
    · exact (hn.passed s path).append (ih hrest)

theorem extensions {bound : Bound} (hbound : bound.isNamed = true) {ns : List Node}
    (h : ∀ n ∈ ns, Followed n) :
    (declaredExtensions s bound ns).Follows (SameNamed s.path path)
      (declaredExtensions (s.plain path) bound ns) := by
  induction ns with
  | nil => exact .pure .nil
  | cons n rest ih =>
    obtain ⟨hn, hrest⟩ := List.forall_mem_cons.mp h
    rw [declaredExtensions, declaredExtensions]
    split
    · exact (hn.bound s path hbound).append (ih hrest)
    · exact (hn.passed s path).append (ih hrest)

theorem call {span : Span} {callee : Node} {args : List Node} (hcallee : Followed callee)
    (hargs : ∀ a ∈ args, Followed a) :
    (declared s (.call span callee args)).Follows (SameNamed s.path path)
      (declared (s.plain path) (.call span callee args)) := by
  have hfound := hcallee.passed s path
  rw [declared, declared]
  split
  · exact .throw _
  · exact hfound.append (extensions s path rfl hargs)
  · refine hfound.bind fun found found' hleaves => ?_
    cases s.withAnonymous with
    | true => exact (arguments s path _ hargs).bind fun _ _ hmore => .pure (hleaves.append hmore)
    | false => exact (all s path hargs).bind fun _ _ hmore => .pure (hleaves.append hmore)

theorem assign {span : Span} {isPlain : Bool} {target value : Node} (htarget : Followed target)
    (hvalue : Followed value) :
    (declared s (.assign span isPlain target value)).Follows (SameNamed s.path path)
      (declared (s.plain path) (.assign span isPlain target value)) := by
  have hboth := (htarget.passed s path).append (hvalue.passed s path)
  unfold declared
  split
  · split
    · exact hvalue.bound s path rfl
    · exact hboth
  · dsimp only
    split
    · exact (Indexer.Follows.report s path _ _ _ _).bind fun _ _ _ => hboth
    · exact hboth

end Followed

theorem declared_follows (s : Scope) (path : String) {n : Node}
    (h : ∀ p ∈ n.parts, ∀ m ∈ p.subtree, Followed m) :
    (declared s n).Follows (SameNamed s.path path) (declared (s.plain path) n) := by
  have hpart (p : Node) (hp : p ∈ n.parts) : Followed p := h p hp p p.self_mem_subtree
  have hfirst {p : Node} {ps : List Node} (hparts : n.parts = p :: ps) :=
    (hpart p (by rw [hparts]; exact List.mem_cons_self)).passed s path
  have hrest {p : Node} {ps : List Node} (hparts : n.parts = p :: ps) : ∀ q ∈ ps, Followed q :=
    fun q hq => hpart q (by rw [hparts]; exact List.mem_cons_of_mem p hq)
  cases n with
  | paren | spread =>
    rw [declared, declared]
    exact hfirst rfl
  | member =>
    rw [declared, declared]
    exact (hfirst rfl).append (Followed.all s path (hrest rfl))
  | call span callee args => exact Followed.call s path (hpart callee List.mem_cons_self) (hrest rfl)
  | assign span isPlain target value =>
    exact Followed.assign s path (hpart target List.mem_cons_self) (hrest rfl value List.mem_cons_self)
  | object _ members =>
    rw [declared, declared]
    exact (reportMembers_follows s path members).bind fun _ _ _ => Followed.all s path hpart
  | property | method =>
    rw [declared, declared]
    exact Followed.appendValue s path hpart
  | function | arrow =>
    rw [declared, declared]
    exact Followed.appendAll s path hpart
  | functionDecl _ _ f =>
    rw [declared, declared]
    exact (hpart f List.mem_cons_self).bound s path rfl
  | varDecl =>
    rw [declared, declared]
    exact Followed.names s path _ h
  | declarator =>
    rw [declared, declared]
    exact (hfirst rfl).append (Followed.option s path (hrest rfl))
  | statement span =>
    rw [declared, declared]
    exact Followed.all { s with statementEnd := some span.stop } path hpart
  | plain =>
    rw [declared, declared]
    exact Followed.all s path hpart
  | name | this | string => exact .pure .nil

theorem declaredAs_follows (s : Scope) (path : String) {bound : Bound} (hbound : bound.isNamed = true)
    {n : Node} (h : ∀ p ∈ n.parts, ∀ m ∈ p.subtree, Followed m) :
    (declaredAs s bound n).Follows (SameNamed s.path path) (declaredAs (s.plain path) bound n) := by
  have hpart (p : Node) (hp : p ∈ n.parts) : Followed p := h p hp p p.self_mem_subtree
  cases n with
  | paren _ inner | spread _ inner =>
    rw [declaredAs, declaredAs]
    exact (hpart inner List.mem_cons_self).bound s path hbound
  | assign _ _ target value =>
    rw [declaredAs, declaredAs]
    exact (hpart value (List.mem_cons_of_mem target List.mem_cons_self)).bound s path hbound
  | function | arrow =>
    rw [declaredAs, declaredAs]
    exact .enclose hbound fun inner path => Followed.appendAll inner path hpart
  | object =>
    rw [declaredAs, declaredAs]
    cases bound.root? with
    | none => exact .pure .nil
    | some root => exact Followed.members s path root h
  | _ => exact .pure .nil

theorem declaredUnnamed_follows (s : Scope) (path : String) (index stop : Nat) {n : Node} (hn : n.Unnamed)
    (h : ∀ p ∈ n.parts, ∀ m ∈ p.subtree, Followed m) :
    (declaredAs s (.anonymous index stop) n).Follows (SameNamed s.path path)
      (declared (s.plain path) n) := by
  have hpart (p : Node) (hp : p ∈ n.parts) : Followed p := h p hp p p.self_mem_subtree
  cases hn with
  | paren hinner | spread hinner =>
    rw [declaredAs, declared]
    exact (hpart _ List.mem_cons_self).unnamed s path index stop hinner
  | function | arrow =>
    rw [declaredAs, declared]
    exact .encloseAnonymous fun inner path => Followed.appendAll inner path hpart

theorem Followed.of_node (n : Node) : Followed n := by
  induction n using induction_below with
  | step n ih =>
    exact ⟨fun s path => declared_follows s path ih, fun s path _ hbound => declaredAs_follows s path hbound ih,
      fun s path index stop hn => declaredUnnamed_follows s path index stop hn ih⟩

namespace Discovery

theorem ofProgram_eq (program : Program) (file source : String) (withAnonymous : Bool) :
    ofProgram program file source withAnonymous =
      ((declaredAll ⟨file, source.toList, withAnonymous, Path.ofScript file, none⟩ program.body).run
        ⟨0, []⟩).map fun (children, tally) =>
          ⟨{ Leaf.new (Path.ofScript file) ⟨0, Text.width source.toList⟩ with children := children },
            tally.diagnostics⟩ := by
  rw [ofProgram]
  cases hrun : (declaredAll ⟨file, source.toList, withAnonymous, Path.ofScript file, none⟩
    program.body).run ⟨0, []⟩ <;> rfl

/-- To index functions without a name puts leaves into the tree and does nothing else. A script cannot be
    indexed with them exactly when it cannot without them, and then for the same reason; the same is
    reported, in the same order; and where each leaf of theirs gives way to its children, the tree is the
    one without them, with all that the leaves say. Nothing is assumed of the places in the syntax
    tree. -/
theorem ofProgram_withoutAnonymous (program : Program) (file source : String) :
    (ofProgram program file source true).map
        (fun found => (found.root.withoutAnonymous, found.diagnostics)) =
      (ofProgram program file source false).map fun found => ([found.root], found.diagnostics) := by
  let scope : Scope := ⟨file, source.toList, true, Path.ofScript file, none⟩
  have hruns := Followed.all scope scope.path (fun n (_ : n ∈ program.body) => .of_node n)
    ⟨0, []⟩ ⟨0, []⟩ rfl
  rw [ofProgram_eq, ofProgram_eq]
  change Except.map _ (((declaredAll scope program.body).run _).map _) =
    Except.map _ (((declaredAll (scope.plain scope.path) program.body).run _).map _)
  generalize (declaredAll scope program.body).run ⟨0, []⟩ = run at hruns ⊢
  generalize (declaredAll (scope.plain scope.path) program.body).run ⟨0, []⟩ = run' at hruns ⊢
  cases hruns with
  | error e => rfl
  | @ok leaves leaves' tally tally' hsame hreports =>
    obtain ⟨below, hleaves, rfl⟩ := hsame
    let root : Leaf :=
      { Leaf.new (Path.ofScript file) ⟨0, Text.width source.toList⟩ with children := leaves }
    have hroot : root.withoutAnonymous =
        [{ root with children := below.map (Leaf.mapPaths (Path.child scope.path)) }] := by
      rw [Leaf.withoutAnonymous_of_named rfl, ← hleaves]
    change Except.ok (root.withoutAnonymous, tally.diagnostics) = Except.ok (_, tally'.diagnostics)
    rw [hroot, hreports]

end Discovery

end PageProbe
