import PageProbe.Proofs.Tree.Repetition

namespace PageProbe

open Script

/-- The names of members in a row behind what they are members of. -/
def dotted (start : String) (keys : List String) : String := keys.foldl (fun name key => name ++ "." ++ key) start

theorem dotted_concat (start : String) (keys : List String) (key : String) :
    dotted start (keys ++ [key]) = dotted start keys ++ "." ++ key := by
  rw [dotted, List.foldl_append]
  rfl

theorem dotted_append (start : String) (keys : List String) : dotted start keys = start ++ dotted "" keys := by
  induction keys generalizing start with
  | nil => exact String.append_empty.symm
  | cons key keys ih =>
    have hstart := ih (start ++ "." ++ key)
    have hempty := ih ("" ++ "." ++ key)
    simp only [dotted, List.foldl_cons] at hstart hempty ⊢
    rw [hstart, hempty, String.empty_append, String.append_assoc, String.append_assoc,
      String.append_assoc]

/-- What comes before the members can be told from the whole. -/
theorem dotted_inj {start start' : String} {keys : List String} :
    dotted start keys = dotted start' keys ↔ start = start' := by
  refine ⟨fun h => ?_, congrArg (dotted · keys)⟩
  rw [dotted_append start, dotted_append start'] at h
  have hlist := congrArg String.toList h
  rw [String.toList_append, String.toList_append] at hlist
  exact String.toList_inj.mp (List.append_cancel_right hlist)

/-- What a chain of members with static names starts at. -/
inductive ChainStart where
  | name (text : String)
  | this

namespace ChainStart

/-- The start as it is written. -/
def text : ChainStart → String
  | name text => text
  | this => "this"

/-- The start of a name that a call is recorded under, when `this` stands for something. -/
def standing (owner : String) : ChainStart → String
  | name text => text
  | this => owner

def isThis : ChainStart → Bool
  | name _ => false
  | this => true

/-- What a call of members in a row calls. -/
def callee (keys : List String) : ChainStart → Callee
  | name text => .named (dotted text keys)
  | this => .ofThis (dotted "" keys)

/-- A standing start is the written one, unless something else stands for `this`. -/
theorem standing_eq_text_iff {start : ChainStart} {owner : String} :
    start.standing owner = start.text ↔ start.isThis = false ∨ owner = "this" := by
  cases start with
  | name _ => exact iff_of_true rfl (.inl rfl)
  | this => exact ⟨.inr, fun h => h.resolve_left nofun⟩

end ChainStart

/-- A chain of members with static names, in whatever parentheses: what it starts at, and the names. -/
inductive Chain : Node → ChainStart → List String → Prop where
  | name (span : Span) (text : String) : Chain (.name span text) (.name text) []
  | this (span : Span) : Chain (.this span) .this []
  | paren {inner : Node} {start : ChainStart} {keys : List String} (span : Span)
      (h : Chain inner start keys) : Chain (.paren span inner) start keys
  | member {holder : Node} {start : ChainStart} {keys : List String} (span : Span) (key : String)
      (parts : List Node) (h : Chain holder start keys) :
      Chain (.member span holder (some key) parts) start (keys ++ [key])

namespace Chain

variable {n : Node} {start : ChainStart} {keys : List String}

/-- The name of a chain that is declared. -/
theorem chainName? (h : Chain n start keys) : n.chainName? = some (dotted start.text keys) := by
  induction h with
  | name span text => rfl
  | this span => rfl
  | paren span h ih => exact ih
  | member span key parts h ih =>
    rw [Node.chainName?, ih, dotted_concat]
    rfl

/-- The name of a chain that is called. -/
theorem chain (h : Chain n start keys) :
    n.chain = (start.isThis, dotted (start.standing "") keys) := by
  induction h with
  | name span text => rfl
  | this span => rfl
  | paren span h ih => exact ih
  | member span key parts h ih =>
    rw [Node.chain, ih, dotted_concat]
    rfl

/-- Every node with a static name is a chain. -/
theorem of_chainName? {name : String} : (n : Node) → n.chainName? = some name →
    ∃ start keys, Chain n start keys ∧ name = dotted start.text keys
  | .name span text, h => ⟨.name text, [], .name span text, (Option.some.inj h).symm⟩
  | .this span, h => ⟨.this, [], .this span, (Option.some.inj h).symm⟩
  | .paren span inner, h => by
    obtain ⟨start, keys, hchain, hname⟩ := of_chainName? inner h
    exact ⟨start, keys, .paren span hchain, hname⟩
  | .member span holder key parts, h => by
    rw [Node.chainName?] at h
    obtain ⟨before, hholder, h⟩ := Option.bind_eq_some_iff.mp h
    obtain ⟨last, rfl, h⟩ := Option.bind_eq_some_iff.mp h
    obtain ⟨start, keys, hchain, rfl⟩ := of_chainName? holder hholder
    refine ⟨start, keys ++ [last], .member span last parts hchain, ?_⟩
    rw [dotted_concat]
    exact (Option.some.inj h).symm

/-- What can be assigned to is a chain, and more than `this`. -/
theorem of_targetName? {name : String} (h : n.targetName? = some name) :
    ∃ start keys, Chain n start keys ∧ name = dotted start.text keys ∧
      (start.isThis = true → keys ≠ []) := by
  cases n with
  | name span text => exact ⟨.name text, [], .name span text, (Option.some.inj h).symm, nofun⟩
  | member span holder key parts =>
    obtain ⟨start, keys, hchain, hname⟩ := of_chainName? _ h
    refine ⟨start, keys, hchain, hname, fun _ => ?_⟩
    cases hchain
    exact List.append_ne_nil_of_right_ne_nil _ (List.cons_ne_nil _ _)
  | _ => cases h

/-- A chain is told apart by its parts. -/
theorem unique {start' : ChainStart} {keys' : List String} (h : Chain n start keys)
    (h' : Chain n start' keys') : start = start' ∧ keys = keys' := by
  induction h generalizing start' keys' with
  | name span text =>
    cases h'
    exact ⟨rfl, rfl⟩
  | this span =>
    cases h'
    exact ⟨rfl, rfl⟩
  | paren span h ih =>
    cases h' with
    | paren _ h' => exact ih h'
  | member span key parts h ih =>
    cases h' with
    | member _ _ _ h' =>
      obtain ⟨rfl, rfl⟩ := ih h'
      exact ⟨rfl, rfl⟩

/-- What a call through a chain calls. -/
theorem callee (h : Chain n start keys) (hthis : start.isThis = true → keys ≠ []) :
    n.callee = start.callee keys := by
  induction h with
  | name span text => rfl
  | this span => exact absurd rfl (hthis rfl)
  | paren span h ih => exact ih hthis
  | @member _ start keys span key parts h _ =>
    have hchain := (h.member span key parts).chain
    simp only [Node.callee, Node.unparen, hchain]
    cases start with
    | name text => rfl
    | this => rfl

end Chain

namespace Leaf

/-- What stands for `this` in the calls of a leaf: the object that it belongs to, or else the leaf. -/
def owner (leaf : Leaf) : String := (leaf.fromObject.map (·.name)).getD leaf.name

/-- The name that a call through a chain is recorded under. -/
theorem nameOf_chain {n : Node} {start : ChainStart} {keys : List String} (h : Chain n start keys)
    (hthis : start.isThis = true → keys ≠ []) (leaf : Leaf) :
    leaf.nameOf n.callee = dotted (start.standing leaf.owner) keys := by
  rw [h.callee hthis]
  cases start with
  | name text => rfl
  | this => exact (dotted_append _ _).symm

end Leaf

namespace Script.Node

/-- The targets of a chain of assignments, outermost first. -/
def boundTargets : Node → List Node
  | .paren _ inner => inner.boundTargets
  | .assign _ true target value => target :: value.boundTargets
  | _ => []

/-- The names that a chain of assignments binds are those of its targets. -/
theorem boundTargets_targetName? {n : Node} {names : List String} (h : n.boundNames? = some names) :
    n.boundTargets.map targetName? = names.map some := by
  induction n using boundNames?.induct generalizing names with
  | case1 span inner ih => exact ih h
  | case2 span target value ih =>
    rw [boundNames?] at h
    obtain ⟨name, htarget, h⟩ := Option.bind_eq_some_iff.mp h
    obtain ⟨more, hmore, h⟩ := Option.bind_eq_some_iff.mp h
    obtain rfl := Option.some.inj h
    rw [boundTargets, List.map_cons, htarget, ih hmore, List.map_cons]
  | case3 n hparen hassign =>
    have hnone : n.boundTargets = [] := by
      cases n with
      | paren => exact absurd rfl (hparen _ _)
      | assign _ isPlain =>
        cases isPlain with
        | true => exact absurd rfl (hassign _ _ _)
        | false => rfl
      | _ => rfl
    rw [boundNames?] at h
    · obtain rfl := Option.some.inj h
      rw [hnone]
      rfl
    · exact hparen
    · exact hassign

/-- What is assigned in the end is what is bound. -/
theorem declaredAs_boundValue (s : Scope) (bound : Bound) (n : Node) :
    declaredAs s bound n.boundValue = declaredAs s bound n := by
  induction n using boundValue.induct with
  | case1 span inner ih => rw [boundValue, declaredAs, ih]
  | case2 span target value ih => rw [boundValue, declaredAs, ih]
  | case3 n hparen hassign => rw [boundValue] <;> assumption

/-- A function that is bound has one leaf. -/
theorem declaredAs_function (s : Scope) (bound : Bound) {n : Node} (h : n.isFunction = true) :
    (declaredAs s bound n).Yields fun found =>
      ∃ range params children, found = [{ s.leaf bound range params with children := children }] := by
  have henclose (range : Span) (params : List Node) (inside : Scope → Indexer (List Leaf)) :
      (s.enclose bound range params inside).Yields fun found =>
        ∃ range params children, found = [{ s.leaf bound range params with children := children }] :=
    (Indexer.Yields.any _).bind fun children _ => .pure ⟨range, params, children, rfl⟩
  induction n using isFunction.induct with
  | case1 span inner ih =>
    rw [declaredAs]
    exact ih h
  | case2 =>
    rw [declaredAs]
    exact henclose _ _ _
  | case3 =>
    rw [declaredAs]
    exact henclose _ _ _
  | case4 n hparen hfunction harrow =>
    cases n with
    | paren => exact absurd rfl (hparen _ _)
    | function => exact absurd rfl (hfunction _ _ _ _)
    | arrow => exact absurd rfl (harrow _ _ _)
    | _ => cases h

/-- A function that is assigned to one chain after another has one leaf, with a path for each of them. -/
theorem declared_assign (s : Scope) {span : Span} {target value : Node} {names : List String}
    (hnames : (Node.assign span true target value).boundNames? = some names)
    (hvalue : value.boundValue.isFunction = true) :
    (declared s (.assign span true target value)).Yields fun found =>
      ∃ leaf : Leaf, found = [leaf] ∧ leaf.paths = names.map (Path.child s.path) := by
  rw [boundNames?] at hnames
  obtain ⟨name, htarget, hnames⟩ := Option.bind_eq_some_iff.mp hnames
  obtain ⟨aliases, haliases, hnames⟩ := Option.bind_eq_some_iff.mp hnames
  obtain rfl := Option.some.inj hnames
  simp only [declared, htarget, haliases, hvalue, Bool.true_or, if_true]
  rw [← declaredAs_boundValue]
  refine (declaredAs_function s _ hvalue).imp fun found hfound => ?_
  obtain ⟨range, params, children, rfl⟩ := hfound
  exact ⟨_, rfl, rfl⟩

end Script.Node

/-- A name without slashes is the last segment of its path. -/
theorem Path.last_child (path : String) {name : String} (h : '/' ∉ name.toList) :
    Path.last (Path.child path name) = name := by
  rw [Path.last, segments_child, segments_of_plain h, List.getLast?_concat]
  rfl

namespace Leaf

/-- Every record below a leaf has a range that was recorded before, or is that of some call. -/
def RecordedFrom (old : List Span) (calls : List CallSite) (leaf : Leaf) : Prop :=
  ∀ l ∈ leaf.walk, ∀ u ∈ l.usedFunctions, u.range ∈ old ∨ ∃ c ∈ calls, u.unresolved = l.usedOf c

variable {old : List Span} {calls : List CallSite}

/-- What is recorded for a call is what is collected about it. -/
theorem recordedFrom_foldl_recordStep (state : Leaf × ResolutionStats) (h : state.1.RecordedFrom old calls) :
    (calls.foldl recordStep state).1.RecordedFrom old calls :=
  Records.foldl_recordStep (p := fun usedOf u => u.range ∈ old ∨ ∃ c ∈ calls, u.unresolved = usedOf c)
    calls (fun c hc _ => .inr ⟨c, hc, rfl⟩) state h

/-- Resolution keeps what is recorded. -/
theorem RecordedFrom.withUsed {leaf : Leaf} (h : leaf.RecordedFrom old calls) {f : Leaf → List UsedFunction}
    (hf : ∀ l, (f l).map UsedFunction.unresolved = l.usedFunctions.map UsedFunction.unresolved) :
    (leaf.withUsed f).RecordedFrom old calls := by
  intro l' hl' u hu
  rw [walk_withUsed] at hl'
  obtain ⟨l, hl, rfl⟩ := List.mem_map.mp hl'
  rw [withUsed_usedFunctions] at hu
  have hsame : u.unresolved ∈ l.usedFunctions.map UsedFunction.unresolved := by
    rw [← hf]
    exact List.mem_map_of_mem hu
  obtain ⟨u₀, hu₀, hunresolved⟩ := List.mem_map.mp hsame
  have hrange : u₀.unresolved.range = u.unresolved.range := congrArg UsedFunction.range hunresolved
  change u₀.range = u.range at hrange
  rw [withUsed_usedOf, ← hrange, ← hunresolved]
  exact h l hl u₀ hu₀

/-- The ranges that are on record below a leaf. -/
def recordedRanges (leaf : Leaf) : List Span := leaf.walk.flatMap fun l => l.usedFunctions.map (·.range)

theorem recordedFrom_self (leaf : Leaf) (calls : List CallSite) :
    leaf.RecordedFrom leaf.recordedRanges calls := fun l hl _ hu =>
  .inl (List.mem_flatMap.mpr ⟨l, hl, List.mem_map_of_mem hu⟩)

end Leaf

namespace FunctionTree

/-- What a pass over the calls of a script adds to the records of the script is what is collected about
    the calls. -/
theorem resolveCalls_recordedFrom {tree : FunctionTree} {file : String} {script : Leaf}
    (h : tree.scriptRoot? file = some script) (calls : List CallSite) :
    ∃ script', (tree.resolveCalls file calls).1.scriptRoot? file = some script' ∧
      script'.RecordedFrom script.recordedRanges calls := by
  obtain ⟨before, after, hholds⟩ := Holds.of_scriptRoot? h
  obtain ⟨recorded, stats, hrecorded⟩ :
      ∃ recorded stats, calls.foldl Leaf.recordStep (script, ⟨0, 0, 0⟩) = (recorded, stats) := ⟨_, _, rfl⟩
  have hbare := Leaf.foldl_recordStep_bare calls (script, ⟨0, 0, 0⟩)
  have hfrom := Leaf.recordedFrom_foldl_recordStep (script, ⟨0, 0, 0⟩) (script.recordedFrom_self calls)
  rw [hrecorded] at hbare hfrom
  have hpath : recorded.path = script.path := by rw [← Leaf.bare_path, hbare, Leaf.bare_path]
  obtain ⟨resolve, _, hresolve, hfinal, _, _⟩ := resolveCalls_holds hholds hpath hrecorded
  exact ⟨_, hfinal.scriptRoot?, hfrom.withUsed hresolve⟩

/-- Two ways to name a chain of members with static names. A function that is assigned to the chain, by
    itself or together with others, is indexed under the chain as it is written, and a search for that
    name ends there. A call through the chain is recorded under the same name when the chain starts at a
    name. When it starts at `this`, the record has the object that the leaf belongs to in its place, or
    else the leaf itself, so that it differs from the name of the declaration unless that object is
    called `this`. Parentheses inside of either chain make no difference. Nothing is assumed of the tree
    or of the calls; only what is on record already is left out. -/
theorem chain_names {s : Scope} {span : Span} {target value bound : Node} {names : List String}
    (hnames : (Node.assign span true target value).boundNames? = some names)
    (hvalue : value.boundValue.isFunction = true)
    (hbound : bound ∈ (Node.assign span true target value).boundTargets)
    {start : ChainStart} {keys : List String} (hchain : Chain bound start keys)
    (hplain : '/' ∉ (dotted start.text keys).toList)
    {tree : FunctionTree} {file : String} {script : Leaf} (hscript : tree.scriptRoot? file = some script)
    (calls : List CallSite) :
    ((declared s (.assign span true target value)).Yields fun found =>
      ∃ leaf : Leaf, found = [leaf] ∧ Path.child s.path (dotted start.text keys) ∈ leaf.paths ∧
        dotted start.text keys ∈ leaf.names ∧
        ∀ limit depth, leaf.search? (dotted start.text keys) limit depth = some leaf) ∧
    ∃ script', (tree.resolveCalls file calls).1.scriptRoot? file = some script' ∧
      ∀ leaf ∈ script'.walk, ∀ u ∈ leaf.usedFunctions, u.range ∉ script.recordedRanges →
        ∃ c ∈ calls, u.range = c.range ∧
          ∀ callee : Node, Chain callee start keys → c.callee = callee.callee →
            u.name = dotted (start.standing leaf.owner) keys ∧
            (u.name = dotted start.text keys ↔ start.isThis = false ∨ leaf.owner = "this") := by
  obtain ⟨name, hname, htarget⟩ : ∃ name ∈ names, bound.targetName? = some name := by
    have hmem : bound.targetName? ∈ names.map some := by
      rw [← Node.boundTargets_targetName? hnames]
      exact List.mem_map_of_mem hbound
    obtain ⟨name, hname, heq⟩ := List.mem_map.mp hmem
    exact ⟨name, hname, heq.symm⟩
  obtain ⟨start', keys', hchain', rfl, hthis⟩ := Chain.of_targetName? htarget
  obtain ⟨rfl, rfl⟩ := hchain.unique hchain'
  obtain ⟨script', hscript', hfrom⟩ := resolveCalls_recordedFrom hscript calls
  refine ⟨(Node.declared_assign s hnames hvalue).imp fun found hfound => ?_, script', hscript', ?_⟩
  · obtain ⟨leaf, rfl, hpaths⟩ := hfound
    have hpath : Path.child s.path (dotted start.text keys) ∈ leaf.paths := by
      rw [hpaths]
      exact List.mem_map_of_mem hname
    have hown : dotted start.text keys ∈ leaf.names :=
      List.mem_map.mpr ⟨_, hpath, Path.last_child s.path hplain⟩
    refine ⟨leaf, rfl, hpath, hown, fun limit depth => ?_⟩
    rw [Leaf.search?_eq, if_pos (List.contains_iff_mem.mpr hown)]
  · intro leaf hleaf u hu hnew
    obtain ⟨c, hc, hrecord⟩ := (hfrom leaf hleaf u hu).resolve_left hnew
    refine ⟨c, hc, congrArg UsedFunction.range hrecord, fun callee hcallee hcalled => ?_⟩
    have hrecorded : u.name = dotted (start.standing leaf.owner) keys := by
      rw [← Leaf.nameOf_chain hcallee hthis, ← hcalled]
      exact congrArg UsedFunction.name hrecord
    exact ⟨hrecorded, by rw [hrecorded, dotted_inj, ChainStart.standing_eq_text_iff]⟩

end FunctionTree

namespace Sample

/-- A function that assigns to a member of `this`, and calls it. -/
def loading : ScriptSource :=
  ⟨"app.js", "function Model() \x7b this.load = function () \x7b\x7d; this.load(); \x7d"⟩

/-- Of a function of an analysed script: the names of what is declared in it, and the names and paths of
    its calls. -/
def namesIn (script : ScriptSource) (path : String) :
    Option (List (List String) × List (String × Option String)) :=
  ((FunctionTree.empty "page").analyse script false).toOption.bind fun analysed =>
    (analysed.1.find? path).map fun leaf =>
      (leaf.children.map (·.names), leaf.usedFunctions.map fun u => (u.name, u.path))

end Sample

namespace FunctionTree

/-- The function is indexed as `this.load`. The call of it is recorded as one of `Model.load`, and does not
    find it. -/
theorem chain_names_this :
    ∃ tree report leaf, (empty "page").analyse Sample.loading false = .ok (tree, report) ∧
      tree.find? "/app.js/Model" = some leaf ∧ leaf.children.map (·.names) = [["this.load"]] ∧
      leaf.usedFunctions.map (fun u => (u.name, u.path)) = [("Model.load", none)] := by
  have hnames : Sample.namesIn Sample.loading "/app.js/Model" =
      some ([["this.load"]], [("Model.load", none)]) := by decide +kernel
  rw [Sample.namesIn] at hnames
  cases hok : (empty "page").analyse Sample.loading false with
  | error e =>
    rw [hok] at hnames
    cases hnames
  | ok analysed =>
    rw [hok] at hnames
    obtain ⟨leaf, hleaf, hsame⟩ := Option.map_eq_some_iff.mp hnames
    obtain ⟨hchildren, hcalls⟩ := Prod.mk.inj hsame
    exact ⟨analysed.1, analysed.2, leaf, rfl, hleaf, hchildren, hcalls⟩

end FunctionTree

namespace Sample

/-- The member `b` of `a`, written with and without parentheses. -/
def plainMember : Node := .member ⟨0, 3⟩ (.name ⟨0, 1⟩ "a") (some "b") []

def parenthesised : Node :=
  .paren ⟨20, 27⟩ (.member ⟨21, 26⟩ (.paren ⟨21, 24⟩ (.name ⟨22, 23⟩ "a")) (some "b") [])

/-- A script whose calls are not recorded yet. -/
def uncalled : FunctionTree := ⟨"page", [Leaf.new "/app.js" ⟨0, 30⟩]⟩

def memberCall : CallSite := siteOf [] ⟨20, 29⟩ parenthesised []

end Sample

theorem FunctionTree.chain_names_parenthesised :
    ∃ script, (Sample.uncalled.resolveCalls "app.js" [Sample.memberCall]).1.scriptRoot? "app.js" = some script ∧
      script.usedFunctions.length = 1 ∧ ∀ u ∈ script.usedFunctions, u.name = "a.b" := by
  have hbound : Chain Sample.plainMember (.name "a") ["b"] := .member _ _ _ (.name _ _)
  have hcalled : Chain Sample.parenthesised (.name "a") ["b"] :=
    .paren _ (.member _ _ _ (.paren _ (.name _ _)))
  obtain ⟨_, script, hscript, hrecords⟩ :=
    chain_names (s := ⟨"app.js", [], false, "/app.js", none⟩)
      (show (Node.assign ⟨0, 18⟩ true Sample.plainMember (.function ⟨6, 18⟩ false [] [])).boundNames? =
        some ["a.b"] from rfl)
      rfl List.mem_cons_self hbound (by decide)
      (show Sample.uncalled.scriptRoot? "app.js" = some _ from rfl) [Sample.memberCall]
  have hone : ((Sample.uncalled.resolveCalls "app.js" [Sample.memberCall]).1.scriptRoot? "app.js").map
      (·.usedFunctions.length) = some 1 := rfl
  rw [hscript] at hone
  refine ⟨script, hscript, Option.some.inj hone, fun u hu => ?_⟩
  obtain ⟨c, hc, _, hname⟩ := hrecords script script.self_mem_walk u hu List.not_mem_nil
  obtain rfl := List.mem_singleton.mp hc
  exact (hname Sample.parenthesised hcalled rfl).1

end PageProbe
