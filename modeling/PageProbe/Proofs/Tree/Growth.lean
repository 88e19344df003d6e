import PageProbe.Proofs.Tree.Making

/-!
However a script is made, its leaves are made in one way: the leaf of a function that is bound, with the
leaves of what is declared inside as its children. A property that goes from the children to the leaf
around them therefore holds of everything that is indexed. It may speak of the path around a leaf, and of
the ends of nodes, since every place that a leaf keeps is the end of some node.
-/

namespace PageProbe

open Script Script.Node

/-- All nodes of a tree end at places of one kind. -/
def Script.Node.EndsAt (E : Nat → Prop) (n : Node) : Prop := ∀ m ∈ n.subtree, E m.span.stop

theorem Script.Node.EndsAt.self {E : Nat → Prop} {n : Node} (h : n.EndsAt E) : E n.span.stop :=
  h n n.self_mem_subtree

theorem Script.Node.EndsAt.part {E : Nat → Prop} {n p : Node} (h : n.EndsAt E) (hp : p ∈ n.parts) :
    p.EndsAt E := fun m hm => h m (mem_subtree_of_part hp hm)

/-- The statement around ends at a place of a kind. -/
def Scope.EndsAt (E : Nat → Prop) (s : Scope) : Prop := ∀ e, s.statementEnd = some e → E e

theorem Scope.EndsAt.endOr {E : Nat → Prop} {s : Scope} (h : s.EndsAt E) {stop : Nat} (hstop : E stop) :
    E (s.endOr stop) := by
  rw [Scope.endOr]
  cases hend : s.statementEnd with
  | none => exact hstop
  | some e => exact h e hend

/-- The place that a binding tells, if it tells one, is of a kind. -/
def Bound.EndsAt (E : Nat → Prop) : Bound → Prop
  | .declared _ => True
  | .value _ _ stop => E stop
  | .member root _ => E root.stop
  | .anonymous _ stop => E stop

theorem Bound.EndsAt.point {E : Nat → Prop} {bound : Bound} (h : bound.EndsAt E) {stop : Nat}
    (hstop : E stop) : E (bound.point stop) := by
  cases bound with
  | declared => exact hstop
  | _ => exact h

/-- A property of leaves and of the paths around them that a leaf has when its children have it, and when
    the places it keeps are of a kind. -/
def Inherited (E : Nat → Prop) (P : String → Leaf → Prop) : Prop :=
  ∀ (s : Scope) (bound : Bound) (range : Span) (params : List Node) (children : List Leaf),
    E range.stop → bound.EndsAt E →
    (∀ c ∈ children, P (s.leaf bound range params).path c) →
    P s.path { s.leaf bound range params with children := children }

/-- The place that is told for a node is of a kind if the node ends at one. -/
def Use.EndsAt (E : Nat → Prop) (u : Use) : Prop := ∀ stop, E stop → E (u.point stop)

theorem Bound.endsAt_of_use {E : Nat → Prop} {b : Bound} (h : (Use.bound b).EndsAt E) {stop : Nat}
    (hstop : E stop) : b.EndsAt E := by
  cases b with
  | declared => trivial
  | _ => exact h stop hstop

section
variable {E : Nat → Prop} {s : Scope} {u : Use} {n : Node} {items : Items}

theorem Items.endsAt_walk {ns : List Node} (h : ∀ n ∈ ns, n.EndsAt E) :
    ∀ i ∈ Items.walk ns, i.2.EndsAt E ∧ i.1.EndsAt E := by
  intro i hi
  obtain ⟨n, hn, rfl⟩ := List.mem_map.mp hi
  exact ⟨h n hn, fun _ hstop => hstop⟩

theorem Hands.endsAt (h : Hands s u n items) (hs : s.EndsAt E) (hn : n.EndsAt E) (hu : u.EndsAt E) :
    ∀ i ∈ items, i.2.EndsAt E ∧ i.1.EndsAt E := by
  intro i hi
  refine ⟨h.of_parts hn (fun _ hp => hn.part hp) i hi, fun stop hstop => ?_⟩
  cases h.point i hi with
  | walked hv =>
    rw [hv]
    exact hstop
  | kept _ hv =>
    rw [hv]
    exact hu stop hstop
  | statement hv =>
    rw [hv]
    exact hs.endOr hn.self
  | declaration _ hv =>
    rcases hv stop with hv | hv <;> rw [hv]
    · exact hstop
    · exact hn.self

end

/-- What leaves are made of brings only leaves with an inherited property. -/
theorem Made.brings {E : Nat → Prop} {P : String → Leaf → Prop} (hP : Inherited E P) {s : Scope}
    {items : Items} {leaves : List Leaf} (h : Made s items leaves) (hs : s.EndsAt E)
    (hitems : ∀ i ∈ items, i.2.EndsAt E ∧ i.1.EndsAt E) : ∀ leaf ∈ leaves, P s.path leaf := by
  induction h with
  | idle => exact fun _ h => nomatch h
  | append _ _ ih ihrest =>
    obtain ⟨hitems, hrest⟩ := List.forall_mem_append.mp hitems
    exact List.forall_mem_append.mpr ⟨ih hs hitems, ihrest hs hrest⟩
  | hands hands _ ih =>
    obtain ⟨hn, hu⟩ := hitems _ List.mem_cons_self
    exact ih hs (hands.endsAt hs hn hu)
  | @statement s span parts _ _ ih =>
    obtain ⟨hn, -⟩ := hitems _ List.mem_cons_self
    have hend : Scope.EndsAt E { s with statementEnd := some span.stop } := by
      intro e he
      cases he
      exact hn.self
    exact ih hend (Items.endsAt_walk fun p hp => hn.part hp)
  | @leaf s b n params children _ _ ih =>
    obtain ⟨hn, hb⟩ := hitems _ List.mem_cons_self
    have hchildren := ih hs (Items.endsAt_walk fun p hp => hn.part hp)
    intro leaf hleaf
    rw [List.mem_singleton.mp hleaf]
    exact hP s b n.span params children hn.self (Bound.endsAt_of_use hb hn.self) hchildren

/-- All leaves below the root of a script have an inherited property, and it may speak of the ends of the
    nodes of the script. -/
theorem Discovery.ofProgram_brings {E : Nat → Prop} {P : String → Leaf → Prop} (hP : Inherited E P)
    {program : Program} (hends : ∀ n ∈ program.nodes, E n.span.stop)
    {file source : String} {withAnonymous : Bool} {found : Discovery}
    (hfound : Discovery.ofProgram program file source withAnonymous = .ok found) :
    ∃ children, (∀ c ∈ children, P (Path.ofScript file) c) ∧
      found.root =
        { Leaf.new (Path.ofScript file) ⟨0, Text.width source.toList⟩ with children := children } := by
  obtain ⟨children, hmade, hroot⟩ := ofProgram_made hfound
  have hbody (n : Node) (hn : n ∈ program.body) : n.EndsAt E := fun m hm =>
    hends m (List.mem_flatMap.mpr ⟨n, hn, hm⟩)
  exact ⟨children, hmade.brings hP nofun (Items.endsAt_walk hbody), hroot⟩

end PageProbe
