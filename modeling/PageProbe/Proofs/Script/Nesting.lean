import PageProbe.Script.Parser

namespace PageProbe.Script
namespace Node

/-- The nodes right below a node. -/
def parts : Node → List Node
  | .paren _ inner => [inner]
  | .member _ holder _ parts => holder :: parts
  | .call _ callee args => callee :: args
  | .assign _ _ target value => [target, value]
  | .object _ members => members
  | .property _ _ keyParts value => keyParts ++ [value]
  | .method _ _ _ keyParts f => keyParts ++ [f]
  | .spread _ inner => [inner]
  | .function _ _ params body => params ++ body
  | .arrow _ params body => params ++ body
  | .functionDecl _ _ f => [f]
  | .varDecl _ declarators => declarators
  | .declarator _ binding init => binding :: init.toList
  | .statement _ parts => parts
  | .plain _ _ parts => parts
  | _ => []

/-- A node as those beside it see it: of a function only the parameters and the body. -/
def exposed : Node → List Node
  | .function _ _ params body => params ++ body
  | n => [n]

/-- The nodes below a node that may not overlap. A method, also one of a class, shares its key with its
    function, of which therefore only the parts count. -/
def siblings : Node → List Node
  | .method _ _ _ keyParts f => (keyParts ++ [f]).flatMap exposed
  | .plain .classMember _ parts => parts.flatMap exposed
  | n => n.parts

/-- Nodes that do not overlap. -/
def Apart (ns : List Node) : Prop := ns.Pairwise fun n m => n.span.overlaps m.span = false

instance (ns : List Node) : Decidable (Apart ns) :=
  inferInstanceAs (Decidable (ns.Pairwise fun n m => n.span.overlaps m.span = false))

/-- A tree whose nodes lie inside each other or beside each other. -/
inductive Nested : Node → Prop where
  | intro {n : Node} (hinside : ∀ p ∈ n.parts, n.span.contains p.span = true)
      (hapart : Apart n.siblings) (hparts : ∀ p ∈ n.parts, Nested p) : Nested n

namespace Nested

theorem inside {n : Node} (h : Nested n) : ∀ p ∈ n.parts, n.span.contains p.span = true := by
  cases h with
  | intro hinside _ _ => exact hinside

theorem apart {n : Node} (h : Nested n) : Apart n.siblings := by
  cases h with
  | intro _ hapart _ => exact hapart

theorem part {n : Node} (h : Nested n) : ∀ p ∈ n.parts, Nested p := by
  cases h with
  | intro _ _ hparts => exact hparts

theorem stop_le {n : Node} (h : Nested n) : ∀ p ∈ n.parts, p.span.stop ≤ n.span.stop :=
  fun p hp => ((Span.contains_iff _ _).mp (h.inside p hp)).2

/-- What others see of a node lies inside of it. -/
theorem exposed_inside {n : Node} (h : Nested n) : ∀ p ∈ n.exposed, n.span.contains p.span = true := by
  cases n with
  | function => exact h.inside
  | _ =>
    intro p hp
    rw [List.mem_singleton.mp hp]
    exact Span.contains_refl _

end Nested

/-- A relation between nodes beside each other that the nodes below them have as well. -/
structure Hereditary (R : Node → Node → Prop) : Prop where
  left {n m p : Node} (hn : Nested n) (h : R n m) (hp : p ∈ n.parts) : R p m
  right {n m p : Node} (hm : Nested m) (h : R n m) (hp : p ∈ m.parts) : R n p

section
variable {R : Node → Node → Prop} {n : Node}

/-- Others see a node, or its parts. -/
theorem exposed_eq (n : Node) : n.exposed = [n] ∨ n.exposed = n.parts ∧ n.siblings = n.parts := by
  cases n with
  | function => exact .inr ⟨rfl, rfl⟩
  | _ => exact .inl rfl

theorem exposed_pairwise (h : n.siblings.Pairwise R) : n.exposed.Pairwise R := by
  rcases n.exposed_eq with hself | ⟨hparts, hsiblings⟩
  · exact hself ▸ List.pairwise_singleton R n
  · exact hparts ▸ hsiblings ▸ h

/-- The parts of nodes in a relation may stand for the nodes. -/
theorem Hereditary.of_seen (hR : Hereditary R) {m : Node} (hn : Nested n) (hm : Nested m) (h : R n m)
    {ns ms : List Node} (hns : ns = [n] ∨ ns = n.parts) (hms : ms = [m] ∨ ms = m.parts) :
    ∀ p ∈ ns, ∀ q ∈ ms, R p q := by
  intro p hp q hq
  have hleft : R p m := by
    rcases hns with rfl | rfl
    · exact List.mem_singleton.mp hp ▸ h
    · exact hR.left hn h hp
  rcases hms with rfl | rfl
  · exact List.mem_singleton.mp hq ▸ hleft
  · exact hR.right hm hleft hq

/-- Nodes in a relation may be seen in part as well. -/
theorem Hereditary.pairwise_exposed (hR : Hereditary R) {ns : List Node} (h : ns.Pairwise R)
    (hnested : ∀ n ∈ ns, Nested n) (hsiblings : ∀ n ∈ ns, n.siblings.Pairwise R) :
    (ns.flatMap Node.exposed).Pairwise R := by
  rw [List.pairwise_flatMap]
  refine ⟨fun n hn => exposed_pairwise (hsiblings n hn), ?_⟩
  exact h.imp_of_mem fun {n m} hn hm hnm => hR.of_seen (hnested n hn) (hnested m hm) hnm
    (n.exposed_eq.imp_right And.left) (m.exposed_eq.imp_right And.left)

/-- What is seen of the parts of a node, be it siblings or parts of them. -/
theorem Hereditary.pairwise_parts (hR : Hereditary R) (hn : Nested n) (h : n.siblings.Pairwise R)
    (hparts : ∀ p ∈ n.parts, p.siblings.Pairwise R) : (n.parts.flatMap Node.exposed).Pairwise R := by
  cases n with
  | method => exact h
  | plain form =>
    cases form with
    | classMember => exact h
    | _ => exact hR.pairwise_exposed h hn.part hparts
  | _ => exact hR.pairwise_exposed h hn.part hparts

end

theorem hereditary_apart : Hereditary fun n m => n.span.overlaps m.span = false where
  left hn h hp := Span.overlaps_of_contains h (hn.inside _ hp) (Span.contains_refl _)
  right hm h hp := Span.overlaps_of_contains h (Span.contains_refl _) (hm.inside _ hp)

/-- Nodes that do not overlap may be seen in part as well. -/
theorem Apart.exposed {ns : List Node} (hapart : Apart ns) (hnested : ∀ n ∈ ns, Nested n) :
    Apart (ns.flatMap Node.exposed) :=
  hereditary_apart.pairwise_exposed hapart hnested fun n hn => (hnested n hn).apart

/-- It is enough that the nodes right below every node do not overlap. -/
theorem Nested.of_apart {n : Node} (hinside : ∀ p ∈ n.parts, n.span.contains p.span = true)
    (hapart : Apart n.parts) (hparts : ∀ p ∈ n.parts, Nested p) : Nested n := by
  refine .intro hinside ?_ hparts
  cases n with
  | method => exact hapart.exposed hparts
  | plain form =>
    cases form with
    | classMember => exact hapart.exposed hparts
    | _ => exact hapart
  | _ => exact hapart

end Node

/-- A script whose statements lie in its text beside each other, with nested trees. -/
structure Program.Nested (program : Program) (length : Nat) : Prop where
  inside : ∀ n ∈ program.body, (⟨0, length⟩ : Span).contains n.span = true
  apart : Node.Apart program.body
  trees : ∀ n ∈ program.body, n.Nested

end PageProbe.Script
