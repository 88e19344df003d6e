import PageProbe.Proofs.Script.Nesting
import PageProbe.Tree.Declarations

namespace PageProbe

open Script Script.Node

/-- A leaf that holds its children, which do not overlap, and whose injection point lies between its end
    and the end of the text, and so for all leaves below. -/
inductive Leaf.Placed (length : Nat) : Leaf → Prop where
  | intro {leaf : Leaf} (hinside : ∀ c ∈ leaf.children, leaf.range.contains c.range = true)
      (hapart : leaf.children.Pairwise fun c c' => c.range.overlaps c'.range = false)
      (hbehind : leaf.range.stop ≤ leaf.injectionPoint) (hwithin : leaf.injectionPoint ≤ length)
      (hchildren : ∀ c ∈ leaf.children, Leaf.Placed length c) : Leaf.Placed length leaf

/-- Leaves that come from some nodes: each lies inside of one of them, and they do not overlap. -/
structure Fit (length : Nat) (nodes : List Node) (leaves : List Leaf) : Prop where
  inside : ∀ leaf ∈ leaves, ∃ n ∈ nodes, n.span.contains leaf.range = true
  apart : leaves.Pairwise fun l l' => l.range.overlaps l'.range = false
  placed : ∀ leaf ∈ leaves, leaf.Placed length

namespace Fit

variable {length : Nat} {ns ms : List Node} {leaves more : List Leaf}

theorem nil : Fit length ns [] where
  inside _ h := nomatch h
  apart := .nil
  placed _ h := nomatch h

/-- The nodes may be replaced by others that hold them. -/
theorem mono (h : Fit length ns leaves) (hsub : ∀ n ∈ ns, ∃ m ∈ ms, m.span.contains n.span = true) :
    Fit length ms leaves where
  inside leaf hleaf := by
    obtain ⟨n, hn, hcontains⟩ := h.inside leaf hleaf
    obtain ⟨m, hm, hholds⟩ := hsub n hn
    exact ⟨m, hm, Span.contains_trans hholds hcontains⟩
  apart := h.apart
  placed := h.placed

theorem append (h : Fit length ns leaves) (h' : Fit length ms more) (hapart : Apart (ns ++ ms)) :
    Fit length (ns ++ ms) (leaves ++ more) where
  inside leaf hleaf := by
    rcases List.mem_append.mp hleaf with hleaf | hleaf
    · obtain ⟨n, hn, hcontains⟩ := h.inside leaf hleaf
      exact ⟨n, List.mem_append_left ms hn, hcontains⟩
    · obtain ⟨m, hm, hcontains⟩ := h'.inside leaf hleaf
      exact ⟨m, List.mem_append_right ns hm, hcontains⟩
  apart := by
    obtain ⟨_, _, hcross⟩ := List.pairwise_append.mp hapart
    refine List.pairwise_append.mpr ⟨h.apart, h'.apart, fun l hl l' hl' => ?_⟩
    obtain ⟨n, hn, hcontains⟩ := h.inside l hl
    obtain ⟨m, hm, hcontains'⟩ := h'.inside l' hl'
    exact Span.overlaps_of_contains (hcross n hn m hm) hcontains hcontains'
  placed leaf hleaf := by
    rcases List.mem_append.mp hleaf with hleaf | hleaf
    · exact h.placed leaf hleaf
    · exact h'.placed leaf hleaf

end Fit

/-- Whatever is counted and reported, a success brings something with a property. -/
def Indexer.Yields (x : Indexer α) (Q : α → Prop) : Prop :=
  ∀ (before after : Tally) (a : α), x.run before = .ok (a, after) → Q a

namespace Indexer.Yields

theorem pure {Q : α → Prop} {a : α} (h : Q a) : Indexer.Yields (pure a) Q := by
  intro before after b hb
  cases hb
  exact h

theorem throw {Q : α → Prop} (e : IndexError) : Indexer.Yields (throw e) Q := by
  intro before after a ha
  cases ha

theorem bind {x : Indexer α} {f : α → Indexer β} {P : α → Prop} {Q : β → Prop} (hx : x.Yields P)
    (hf : ∀ a, P a → (f a).Yields Q) : Indexer.Yields (x >>= f) Q := by
  intro before after b hb
  rw [StateT.run_bind] at hb
  cases hrun : x.run before with
  | error e =>
    rw [hrun] at hb
    cases hb
  | ok result =>
    obtain ⟨a, between⟩ := result
    rw [hrun] at hb
    exact hf a (hx before between a hrun) between after b hb

theorem any (x : Indexer α) : x.Yields fun _ => True := fun _ _ _ _ => trivial

theorem imp {x : Indexer α} {P Q : α → Prop} (hx : x.Yields P) (h : ∀ a, P a → Q a) : x.Yields Q :=
  fun before after a ha => h a (hx before after a ha)

end Indexer.Yields

/-- From a node that ends at `stop`, a statement may reach further, though not beyond the text. -/
def Scope.Reaches (s : Scope) (length stop : Nat) : Prop :=
  stop ≤ s.endOr stop ∧ s.endOr stop ≤ length

theorem Scope.Reaches.mono {s : Scope} {length stop stop' : Nat} (h : s.Reaches length stop)
    (hle : stop' ≤ stop) : s.Reaches length stop' := by
  unfold Reaches endOr at *
  cases hend : s.statementEnd with
  | none =>
    simp only [hend, Option.getD_none] at h ⊢
    omega
  | some e =>
    simp only [hend, Option.getD_some] at h ⊢
    omega

/-- Where text for a function is put that is bound in some way and ends at `stop`. -/
def Bound.point (bound : Bound) (stop : Nat) : Nat :=
  match bound with
  | .declared _ => stop
  | .value _ _ e => e
  | .member root _ => root.stop
  | .anonymous _ e => e

def Bound.Reaches (bound : Bound) (length stop : Nat) : Prop :=
  stop ≤ bound.point stop ∧ bound.point stop ≤ length

theorem Bound.Reaches.mono {bound : Bound} {length stop stop' : Nat} (h : bound.Reaches length stop)
    (hle : stop' ≤ stop) : bound.Reaches length stop' := by
  unfold Reaches point at *
  cases bound <;> simp only at * <;> omega

theorem Scope.leaf_injectionPoint (s : Scope) (bound : Bound) (range : Span) (params : List Node) :
    (s.leaf bound range params).injectionPoint = bound.point range.stop := by
  cases bound <;> rfl

theorem Scope.leaf_range (s : Scope) (bound : Bound) (range : Span) (params : List Node) :
    (s.leaf bound range params).range = range := by
  cases bound <;> rfl

theorem Scope.leafWith_range (s : Scope) {bound : Bound} {range : Span} {params : List Node}
    {children : List Leaf} : ({ s.leaf bound range params with children := children } : Leaf).range = range :=
  s.leaf_range bound range params

theorem Scope.leafWith_injectionPoint (s : Scope) {bound : Bound} {range : Span} {params : List Node}
    {children : List Leaf} : ({ s.leaf bound range params with children := children } : Leaf).injectionPoint =
      bound.point range.stop := s.leaf_injectionPoint bound range params

/-- An object hands the end of its binding on to its members. -/
theorem Bound.stop_of_root? {bound : Bound} {root : Root} (h : bound.root? = some root) (stop : Nat) :
    root.stop = bound.point stop := by
  cases bound with
  | value => cases h; rfl
  | member => cases h; rfl
  | declared => cases h
  | anonymous => cases h

/-- A node that can be indexed in a scope. -/
structure Ready (length : Nat) (s : Scope) (n : Node) : Prop where
  nested : Nested n
  reaches : s.Reaches length n.span.stop

theorem Ready.part {length : Nat} {s : Scope} {n : Node} (h : Ready length s n) :
    ∀ p ∈ n.parts, Ready length s p := by
  intro p hp
  have hinside := (Span.contains_iff _ _).mp (h.nested.inside p hp)
  exact ⟨h.nested.part p hp, h.reaches.mono hinside.2⟩

/-- The leaf of a function holds the leaves that are found inside of the function. -/
theorem Fit.leaf {length : Nat} {s : Scope} {bound : Bound} {n : Node} {params ns : List Node}
    {children : List Leaf} (hbound : bound.Reaches length n.span.stop) (hchildren : Fit length ns children)
    (hns : ∀ p ∈ ns, n.span.contains p.span = true) :
    Fit length [n] [{ s.leaf bound n.span params with children := children }] := by
  refine ⟨fun leaf hleaf => ?_, List.pairwise_singleton _ _, fun leaf hleaf => ?_⟩
  all_goals rw [List.mem_singleton.mp hleaf]
  · exact ⟨n, List.mem_singleton_self n, by rw [s.leafWith_range]; exact Span.contains_refl _⟩
  · refine .intro (fun c hc => ?_) hchildren.apart ?_ ?_ hchildren.placed
    · obtain ⟨p, hp, hcontains⟩ := hchildren.inside c hc
      rw [s.leafWith_range]
      exact Span.contains_trans (hns p hp) hcontains
    · rw [s.leafWith_injectionPoint, s.leafWith_range]
      exact hbound.1
    · rw [s.leafWith_injectionPoint]
      exact hbound.2

end PageProbe
