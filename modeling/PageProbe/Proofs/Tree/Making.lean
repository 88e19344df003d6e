import PageProbe.Proofs.Tree.Placement
import PageProbe.Proofs.Tree.Roles

/-!
The functions that index a script differ in what they take a node for, and all of them do one of four things
with it: pass it over, hand its parts on, remember the end of a statement, or make a leaf. Here this is one
relation between nodes and leaves, so that what holds of all leaves is shown once for each of the four. The
relation says neither what is reported nor what must not be passed over.
-/

namespace PageProbe

open Script Script.Node

namespace Script.Node

def isStatement : Node → Bool
  | .statement .. => true
  | _ => false

/-- Whether a node declares names by itself. -/
def isDeclaration : Node → Bool
  | .functionDecl .. => true
  | .varDecl .. => true
  | _ => false

end Script.Node

/-- What a node is taken for. -/
inductive Use where
  | walked
  /-- What is bound. -/
  | bound (b : Bound)
  /-- A part of a declaration of names that ends at `stop`. -/
  | named (stop : Nat)
  /-- A member of an object whose name is known. -/
  | member (root : Root)
  /-- An argument of a call, in a statement that ends at `stop`. -/
  | argument (stop : Nat)
  /-- An argument of a call that extends what has a name. -/
  | extension (b : Bound)

namespace Use

/-- Where text for a function is put that is bound as it is told here. -/
def point (stop : Nat) : Use → Nat
  | walked => stop
  | bound b => b.point stop
  | named e => e
  | member root => root.stop
  | argument e => e
  | extension b => b.point stop

/-- The nodes that those beside a node see of it. -/
def seen : Use → Node → List Node
  | walked, n => n.exposed
  | _, n => [n]

/-- A part of something that is walked by itself unless there is more to it. -/
def isElement : Use → Bool
  | walked => false
  | bound _ => false
  | _ => true

end Use

/-- Nodes, each with what it is taken for. -/
abbrev Items := List (Use × Node)

/-- Nodes that are walked. -/
def Items.walk (ns : List Node) : Items := ns.map (.walked, ·)

theorem Items.nodes_map (u : Use) (ns : List Node) :
    List.map Prod.snd (ns.map fun n => (u, n)) = ns := by
  rw [List.map_map]
  exact List.map_id ns

theorem Items.forall_walk {P : Node → Prop} {ns : List Node} (h : ∀ n ∈ ns, P n) :
    ∀ i ∈ Items.walk ns, P i.2 := by
  intro i hi
  obtain ⟨n, hn, rfl⟩ := List.mem_map.mp hi
  exact h n hn

/-- The nodes that others see. -/
def Items.seen (items : Items) : List Node := items.flatMap fun i => i.1.seen i.2

/-- What a node hands on when it is taken for something. -/
inductive Hands (s : Scope) : Use → Node → Items → Prop where
  | parts {n : Node} (hstatement : n.isStatement = false) (hdeclaration : n.isDeclaration = false) :
      Hands s .walked n (Items.walk n.parts)
  | function (span : Span) (name : String) (f : Node) :
      Hands s .walked (.functionDecl span name f) [(.bound (.declared name), f)]
  | names (span : Span) (declarators : List Node) :
      Hands s .walked (.varDecl span declarators) (declarators.map (.named span.stop, ·))
  | assignment (span : Span) (plain : Bool) (target value : Node) (name : String) (aliases : List String) :
      Hands s .walked (.assign span plain target value)
        [(.walked, target), (.bound (.value name aliases (s.endOr span.stop)), value)]
  | extensions (span : Span) (callee : Node) (args : List Node) (name : String) :
      Hands s .walked (.call span callee args)
        ((.walked, callee) :: args.map (.extension (.value name [] (s.endOr span.stop)), ·))
  | arguments (span : Span) (callee : Node) (args : List Node) :
      Hands s .walked (.call span callee args)
        ((.walked, callee) :: args.map (.argument (s.endOr span.stop), ·))
  | paren (b : Bound) (span : Span) (inner : Node) :
      Hands s (.bound b) (.paren span inner) [(.bound b, inner)]
  | spread (b : Bound) (span : Span) (inner : Node) :
      Hands s (.bound b) (.spread span inner) [(.bound b, inner)]
  | chain (b : Bound) (span : Span) (plain : Bool) (target value : Node) :
      Hands s (.bound b) (.assign span plain target value) [(.walked, target), (.bound b, value)]
  | members {b : Bound} {root : Root} (hroot : b.root? = some root) (span : Span) (members : List Node) :
      Hands s (.bound b) (.object span members) (members.map (.member root, ·))
  | element {u : Use} (hu : u.isElement = true) (n : Node) : Hands s u n [(.walked, n)]
  | initial (stop : Nat) (span place : Span) (name : String) (value : Node) :
      Hands s (.named stop) (.declarator span (.name place name) (some value))
        [(.walked, .name place name), (.bound (.value name [] stop), value)]
  | property (root : Root) (span : Span) (key : String) (keyParts : List Node) (value : Node) :
      Hands s (.member root) (.property span (some key) keyParts value)
        (Items.walk keyParts ++ [(.bound (.member root key), value)])
  | method (root : Root) (span : Span) (keyStart : Nat) (key : String) (keyParts : List Node) (f : Node) :
      Hands s (.member root) (.method span keyStart (some key) keyParts f) [(.bound (.member root key), f)]
  | callback (stop index : Nat) (n : Node) : Hands s (.argument stop) n [(.bound (.anonymous index stop), n)]
  | extended (b : Bound) (n : Node) : Hands s (.extension b) n [(.bound b, n)]

/-- What is handed on is a part of a node that is no statement, or the node itself when it is a part of
    something. -/
theorem Hands.mem {s : Scope} {u : Use} {n : Node} {items : Items} (h : Hands s u n items) :
    ∀ i ∈ items, i.2 ∈ n.parts ∧ n.isStatement = false ∨ i.2 = n ∧ u.isElement = true := by
  cases h <;> grind [Node.parts, Items.walk, Use.isElement, Node.isStatement]

theorem Hands.of_parts {s : Scope} {u : Use} {n : Node} {items : Items} (h : Hands s u n items)
    {P : Node → Prop} (hn : P n) (hparts : ∀ p ∈ n.parts, P p) : ∀ i ∈ items, P i.2 := fun i hi =>
  (h.mem i hi).elim (fun hpart => hparts i.2 hpart.1) fun hsame => hsame.1 ▸ hn

/-- Where the place comes from that a node in a scope, taken for `u`, hands on to what is taken for `v`. -/
inductive PointOf (s : Scope) (u : Use) (n : Node) (v : Use) : Prop where
  | walked (hv : v = .walked)
  | kept (hu : u ≠ .walked) (hv : ∀ stop, v.point stop = u.point stop)
  | statement (hv : ∀ stop, v.point stop = s.endOr n.span.stop)
  | declaration (hn : n.isDeclaration = true)
      (hv : ∀ stop, v.point stop = stop ∨ v.point stop = n.span.stop)

theorem Hands.point {s : Scope} {u : Use} {n : Node} {items : Items} (h : Hands s u n items) :
    ∀ i ∈ items, PointOf s u n i.1 := by
  intro i hi
  cases h with
  | parts =>
    obtain ⟨p, -, rfl⟩ := List.mem_map.mp hi
    exact .walked rfl
  | element =>
    rw [List.mem_singleton.mp hi]
    exact .walked rfl
  | function =>
    rw [List.mem_singleton.mp hi]
    exact .declaration rfl fun _ => .inl rfl
  | names =>
    obtain ⟨d, -, rfl⟩ := List.mem_map.mp hi
    exact .declaration rfl fun _ => .inr rfl
  | assignment =>
    rcases List.mem_cons.mp hi with rfl | hi
    · exact .walked rfl
    · rw [List.mem_singleton.mp hi]
      exact .statement fun _ => rfl
  | extensions | arguments =>
    rcases List.mem_cons.mp hi with rfl | hi
    · exact .walked rfl
    · obtain ⟨a, -, rfl⟩ := List.mem_map.mp hi
      exact .statement fun _ => rfl
  | paren | spread | method | callback | extended =>
    rw [List.mem_singleton.mp hi]
    exact .kept nofun fun _ => rfl
  | chain | initial =>
    rcases List.mem_cons.mp hi with rfl | hi
    · exact .walked rfl
    · rw [List.mem_singleton.mp hi]
      exact .kept nofun fun _ => rfl
  | members hroot =>
    obtain ⟨m, -, rfl⟩ := List.mem_map.mp hi
    exact .kept nofun fun stop => Bound.stop_of_root? hroot stop
  | property =>
    rcases List.mem_append.mp hi with hi | hi
    · obtain ⟨p, -, rfl⟩ := List.mem_map.mp hi
      exact .walked rfl
    · rw [List.mem_singleton.mp hi]
      exact .kept nofun fun _ => rfl

/-- The leaves that are made of some nodes. -/
inductive Made : Scope → Items → List Leaf → Prop where
  | idle (s : Scope) (items : Items) : Made s items []
  | append {s : Scope} {items rest : Items} {leaves more : List Leaf} (h : Made s items leaves)
      (hrest : Made s rest more) : Made s (items ++ rest) (leaves ++ more)
  | hands {s : Scope} {u : Use} {n : Node} {items : Items} {leaves : List Leaf} (hands : Hands s u n items)
      (h : Made s items leaves) : Made s [(u, n)] leaves
  | statement {s : Scope} {span : Span} {parts : List Node} {leaves : List Leaf}
      (h : Made { s with statementEnd := some span.stop } (Items.walk parts) leaves) :
      Made s [(.walked, .statement span parts)] leaves
  | leaf {s : Scope} {b : Bound} {n : Node} {params : List Node} {children : List Leaf}
      (hn : n.functionSpan? = some n.span)
      (h : Made { s with path := (s.leaf b n.span params).path } (Items.walk n.parts) children) :
      Made s [(.bound b, n)] [{ s.leaf b n.span params with children := children }]

/-- A success brings leaves that are made of some nodes. -/
def Indexer.Makes (x : Indexer (List Leaf)) (s : Scope) (items : Items) : Prop := x.Yields (Made s items)

namespace Indexer.Makes

variable {s : Scope} {x y : Indexer (List Leaf)} {items rest : Items}

theorem idle : Makes (pure []) s items := .pure (.idle s items)

theorem append (hx : x.Makes s items) (hy : y.Makes s rest) :
    Makes (do return (← x) ++ (← y)) s (items ++ rest) :=
  hx.bind fun _ hleaves => hy.bind fun _ hmore => .pure (hleaves.append hmore)

theorem appendWalk {ns ms : List Node} (hx : x.Makes s (Items.walk ns)) (hy : y.Makes s (Items.walk ms)) :
    Makes (do return (← x) ++ (← y)) s (Items.walk (ns ++ ms)) := by
  rw [Items.walk, List.map_append]
  exact hx.append hy

theorem hands {u : Use} {n : Node} (hx : x.Makes s items) (h : Hands s u n items) : x.Makes s [(u, n)] :=
  hx.imp fun _ hmade => hmade.hands h

/-- Nodes in front may be passed over. -/
theorem behind (front : Items) (hx : x.Makes s rest) : x.Makes s (front ++ rest) :=
  hx.imp fun leaves hmade => by simpa using (Made.idle s front).append hmade

theorem after {α : Type} (z : Indexer α) {f : α → Indexer (List Leaf)} (hf : ∀ a, (f a).Makes s items) :
    Makes (z >>= f) s items :=
  (Indexer.Yields.any z).bind fun a _ => hf a

theorem enclose {b : Bound} {n : Node} {params : List Node} {inside : Scope → Indexer (List Leaf)}
    (hn : n.functionSpan? = some n.span)
    (hinside : ∀ inner : Scope, (inside inner).Makes inner (Items.walk n.parts)) :
    (s.enclose b n.span params inside).Makes s [(.bound b, n)] :=
  (hinside _).bind fun _ hchildren => .pure (.leaf hn hchildren)

end Indexer.Makes

open Indexer.Makes

/-- Whatever a node is taken for, the leaves that it brings are made of it. -/
structure Maker (n : Node) : Prop where
  walked (s : Scope) : (declared s n).Makes s [(.walked, n)]
  bound (s : Scope) (b : Bound) : (declaredAs s b n).Makes s [(.bound b, n)]

namespace Maker

variable (s : Scope)

theorem all {ns : List Node} (h : ∀ n ∈ ns, Maker n) : (declaredAll s ns).Makes s (Items.walk ns) := by
  induction ns with
  | nil => exact idle
  | cons n rest ih =>
    obtain ⟨hn, hrest⟩ := List.forall_mem_cons.mp h
    rw [declaredAll]
    exact (hn.walked s).append (ih hrest)

theorem option {o : Option Node} (h : ∀ n ∈ o.toList, Maker n) :
    (declaredOption s o).Makes s (Items.walk o.toList) := by
  cases o with
  | none => exact idle
  | some n =>
    rw [declaredOption]
    exact (h n (List.mem_singleton.mpr rfl)).walked s

/-- The parts of a function. -/
theorem appendAll {ns ms : List Node} (h : ∀ n ∈ ns ++ ms, Maker n) :
    Indexer.Makes (do return (← declaredAll s ns) ++ (← declaredAll s ms)) s (Items.walk (ns ++ ms)) :=
  (all s fun n hn => h n (List.mem_append_left ms hn)).appendWalk
    (all s fun n hn => h n (List.mem_append_right ns hn))

/-- The parts of a member of an object. -/
theorem appendValue {keyParts : List Node} {value : Node} (h : ∀ n ∈ keyParts ++ [value], Maker n) :
    Indexer.Makes (do return (← declaredAll s keyParts) ++ (← declared s value)) s
      (Items.walk (keyParts ++ [value])) := by
  have hvalue : (declared s value).Makes s (Items.walk [value]) := (h value List.mem_concat_self).walked s
  exact (all s fun n hn => h n (List.mem_append_left [value] hn)).appendWalk hvalue

theorem names (stop : Nat) {ns : List Node} (h : ∀ n ∈ ns, ∀ m ∈ n.subtree, Maker m) :
    (declaredNames s stop ns).Makes s (ns.map (.named stop, ·)) := by
  induction ns with
  | nil => exact idle
  | cons n rest ih =>
    obtain ⟨hn, hrest⟩ := List.forall_mem_cons.mp h
    have hvisited := (((hn n n.self_mem_subtree).walked s).hands (.element (u := .named stop) rfl n)).append
      (ih hrest)
    cases n with
    | declarator span binding init =>
      cases binding with
      | name place id =>
        cases init with
        | none => exact hvisited
        | some value =>
          have hvalue := hn value (mem_subtree_of_part (by simp [parts]) value.self_mem_subtree)
          have hbound := ((hvalue.bound s (.value id [] stop)).behind [(.walked, .name place id)]).hands
            (.initial stop span place id value)
          have hinit := (((hvalue.walked s).behind [(.walked, .name place id)]).hands
            (n := .declarator span (.name place id) (some value)) (.parts rfl rfl)).hands
            (.element (u := .named stop) rfl _)
          rw [declaredNames]
          split
          · exact hbound.append (ih hrest)
          · exact hinit.append (ih hrest)
      | _ => exact hvisited
    | _ => exact hvisited

theorem members (root : Root) {ns : List Node} (h : ∀ n ∈ ns, ∀ m ∈ n.subtree, Maker m) :
    (declaredMembers s root ns).Makes s (ns.map (.member root, ·)) := by
  induction ns with
  | nil => exact idle
  | cons n rest ih =>
    obtain ⟨hn, hrest⟩ := List.forall_mem_cons.mp h
    have hpart (p : Node) (hp : p ∈ n.parts) := hn p (mem_subtree_of_part hp p.self_mem_subtree)
    have hvisited := (((hn n n.self_mem_subtree).walked s).hands (.element (u := .member root) rfl n)).append
      (ih hrest)
    rw [List.singleton_append, ← List.map_cons] at hvisited
    cases n with
    | property span known keyParts value =>
      cases known with
      | none => exact hvisited
      | some key =>
        have hbound := ((hpart value (by simp [parts])).bound s (.member root key)).behind
          (Items.walk keyParts)
        rw [declaredMembers]
        split
        · exact (hbound.hands (.property root span key keyParts value)).append (ih hrest)
        · simpa only [declared, bind_assoc, pure_bind] using hvisited
    | method span keyStart known keyParts f =>
      cases known with
      | none => exact hvisited
      | some key =>
        have hbound := ((hpart f (by simp [parts])).bound s (.member root key)).hands
          (.method root span keyStart key keyParts f)
        rw [declaredMembers]
        exact hbound.append (ih hrest)
    | _ => exact hvisited

theorem arguments (stop : Nat) {ns : List Node} (h : ∀ n ∈ ns, Maker n) :
    (declaredArguments s stop ns).Makes s (ns.map (.argument stop, ·)) := by
  induction ns with
  | nil => exact idle
  | cons n rest ih =>
    obtain ⟨hn, hrest⟩ := List.forall_mem_cons.mp h
    have hbound (index : Nat) := (hn.bound s (.anonymous index stop)).hands (.callback stop index n)
    rw [declaredArguments]
    split
    · exact after _ fun index => (hbound index).append (ih hrest)
    · exact ((hn.walked s).hands (.element rfl n)).append (ih hrest)

theorem extensions (b : Bound) {ns : List Node} (h : ∀ n ∈ ns, Maker n) :
    (declaredExtensions s b ns).Makes s (ns.map (.extension b, ·)) := by
  induction ns with
  | nil => exact idle
  | cons n rest ih =>
    obtain ⟨hn, hrest⟩ := List.forall_mem_cons.mp h
    rw [declaredExtensions]
    split
    · exact ((hn.bound s b).hands (.extended b n)).append (ih hrest)
    · exact ((hn.walked s).hands (.element rfl n)).append (ih hrest)

theorem call {span : Span} {callee : Node} {args : List Node} (hcallee : Maker callee)
    (hargs : ∀ a ∈ args, Maker a) :
    (declared s (.call span callee args)).Makes s [(.walked, .call span callee args)] := by
  have hfound := hcallee.walked s
  rw [declared]
  split
  · exact .throw _
  · exact (hfound.append (extensions s _ hargs)).hands (.extensions span callee args _)
  · have hcallbacks := (hfound.append (arguments s (s.endOr span.stop) hargs)).hands
      (.arguments span callee args)
    have hvisited := (hfound.append (all s hargs)).hands (n := .call span callee args) (.parts rfl rfl)
    cases s.withAnonymous with
    | true => exact hcallbacks
    | false => exact hvisited

theorem assign {span : Span} {isPlain : Bool} {target value : Node} (htarget : Maker target)
    (hvalue : Maker value) : (declared s (.assign span isPlain target value)).Makes s
      [(.walked, .assign span isPlain target value)] := by
  have hboth := ((htarget.walked s).append (hvalue.walked s)).hands
    (n := .assign span isPlain target value) (.parts rfl rfl)
  have hbound (name : String) (aliases : List String) :=
    ((hvalue.bound s (.value name aliases (s.endOr span.stop))).behind [(.walked, target)]).hands
      (.assignment span isPlain target value name aliases)
  unfold declared
  split
  · split
    · exact hbound _ _
    · exact hboth
  · dsimp only
    split
    · exact after _ fun _ => hboth
    · exact hboth

end Maker

theorem declared_makes (s : Scope) {n : Node} (h : ∀ p ∈ n.parts, ∀ m ∈ p.subtree, Maker m) :
    (declared s n).Makes s [(.walked, n)] := by
  have hpart (p : Node) (hp : p ∈ n.parts) : Maker p := h p hp p p.self_mem_subtree
  have hfirst {p : Node} {ps : List Node} (hparts : n.parts = p :: ps) :=
    (hpart p (by rw [hparts]; exact List.mem_cons_self)).walked s
  have hrest {p : Node} {ps : List Node} (hparts : n.parts = p :: ps) : ∀ q ∈ ps, Maker q :=
    fun q hq => hpart q (by rw [hparts]; exact List.mem_cons_of_mem p hq)
  cases n with
  | paren | spread =>
    rw [declared]
    exact (hfirst rfl).hands (.parts rfl rfl)
  | member =>
    rw [declared]
    exact ((hfirst rfl).append (Maker.all s (hrest rfl))).hands (.parts rfl rfl)
  | call span callee args => exact Maker.call s (hpart callee List.mem_cons_self) (hrest rfl)
  | assign span isPlain target value =>
    exact Maker.assign s (hpart target List.mem_cons_self) (hrest rfl value List.mem_cons_self)
  | object =>
    rw [declared]
    exact after _ fun _ => (Maker.all s hpart).hands (.parts rfl rfl)
  | property | method =>
    rw [declared]
    exact (Maker.appendValue s hpart).hands (.parts rfl rfl)
  | function | arrow =>
    rw [declared]
    exact (Maker.appendAll s hpart).hands (.parts rfl rfl)
  | functionDecl span id f =>
    rw [declared]
    exact ((hpart f List.mem_cons_self).bound s (.declared id)).hands (.function span id f)
  | varDecl span declarators =>
    rw [declared]
    exact (Maker.names s span.stop h).hands (.names span declarators)
  | declarator =>
    rw [declared]
    exact ((hfirst rfl).append (Maker.option s (hrest rfl))).hands (.parts rfl rfl)
  | statement span =>
    rw [declared]
    exact (Maker.all { s with statementEnd := some span.stop } hpart).imp fun _ h => h.statement
  | plain =>
    rw [declared]
    exact (Maker.all s hpart).hands (.parts rfl rfl)
  | name | this | string => exact idle

theorem declaredAs_makes (s : Scope) (b : Bound) {n : Node} (h : ∀ p ∈ n.parts, ∀ m ∈ p.subtree, Maker m) :
    (declaredAs s b n).Makes s [(.bound b, n)] := by
  have hpart (p : Node) (hp : p ∈ n.parts) : Maker p := h p hp p p.self_mem_subtree
  cases n with
  | paren span inner =>
    rw [declaredAs]
    exact ((hpart inner List.mem_cons_self).bound s b).hands (.paren b span inner)
  | spread span inner =>
    rw [declaredAs]
    exact ((hpart inner List.mem_cons_self).bound s b).hands (.spread b span inner)
  | assign span isPlain target value =>
    have hvalue := hpart value (List.mem_cons_of_mem _ List.mem_cons_self)
    rw [declaredAs]
    exact ((hvalue.bound s b).behind [(.walked, target)]).hands (.chain b span isPlain target value)
  | function span named params body =>
    rw [declaredAs]
    exact enclose (n := .function span named params body) rfl fun inner => Maker.appendAll inner hpart
  | arrow span params body =>
    rw [declaredAs]
    exact enclose (n := .arrow span params body) rfl fun inner => Maker.appendAll inner hpart
  | object span members =>
    rw [declaredAs]
    cases hroot : b.root? with
    | none => exact idle
    | some root => exact (Maker.members s root h).hands (.members hroot span members)
  | _ => exact idle

theorem Maker.of_node (n : Node) : Maker n := by
  induction n using induction_below with
  | step n ih => exact ⟨fun s => declared_makes s ih, fun s b => declaredAs_makes s b ih⟩

/-- The leaves of a script are made of its statements. -/
theorem Discovery.ofProgram_made {program : Program} {file source : String} {withAnonymous : Bool}
    {found : Discovery} (hfound : Discovery.ofProgram program file source withAnonymous = .ok found) :
    ∃ children, Made ⟨file, source.toList, withAnonymous, Path.ofScript file, none⟩ (Items.walk program.body) children ∧
      found.root =
        { Leaf.new (Path.ofScript file) ⟨0, Text.width source.toList⟩ with children := children } := by
  rw [ofProgram] at hfound
  let scope : Scope := ⟨file, source.toList, withAnonymous, Path.ofScript file, none⟩
  cases hrun : (declaredAll scope program.body).run ⟨0, []⟩ with
  | error e =>
    rw [hrun] at hfound
    cases hfound
  | ok result =>
    obtain ⟨children, tally⟩ := result
    rw [hrun] at hfound
    cases hfound
    exact ⟨children, Maker.all scope (fun n _ => .of_node n) _ _ _ hrun, rfl⟩

end PageProbe
