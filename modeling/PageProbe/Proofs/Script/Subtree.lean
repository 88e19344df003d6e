import Mathlib.Data.List.Basic
import PageProbe.Proofs.Script.Nesting
import PageProbe.Tree.Calls

namespace PageProbe.Script
namespace Node

theorem sizeOf_lt_of_mem_parts {n p : Node} (h : p ∈ n.parts) : sizeOf p < sizeOf n := by
  have hlist : ∀ ns : List Node, p ∈ ns → sizeOf p < sizeOf ns := fun _ => List.sizeOf_lt_of_mem
  have hoption : ∀ o : Option Node, p ∈ o → sizeOf p < sizeOf o := by
    rintro (_ | n) h
    · cases h
    · cases h
      simp
  cases n <;> grind [parts]

/-- A node has a property if every node has it whose parts have it. -/
theorem induction_parts {motive : Node → Prop} (step : ∀ n, (∀ p ∈ n.parts, motive p) → motive n)
    (n : Node) : motive n :=
  step n fun p _ => induction_parts step p
termination_by sizeOf n
decreasing_by exact sizeOf_lt_of_mem_parts ‹_›

/-- What parentheses keep holds of a node if it holds of what is inside of all its parentheses. -/
theorem of_unparen {motive : Node → Prop} (paren : ∀ span inner, motive inner → motive (.paren span inner))
    {n : Node} (h : motive n.unparen) : motive n := by
  induction n using unparen.induct with
  | case1 span inner ih => exact paren span inner (ih h)
  | case2 n hn =>
    cases n with
    | paren _ inner => exact absurd rfl (hn _ inner)
    | _ => exact h

/-- A node and all nodes below it. -/
def subtree (n : Node) : List Node :=
  n :: n.parts.attach.flatMap fun p => p.val.subtree
termination_by sizeOf n
decreasing_by exact sizeOf_lt_of_mem_parts p.property

theorem subtree_eq (n : Node) : n.subtree = n :: n.parts.flatMap subtree := by
  rw [subtree]
  simp only [List.flatMap_subtype, List.unattach_attach]

theorem mem_subtree {n m : Node} : m ∈ n.subtree ↔ m = n ∨ ∃ p ∈ n.parts, m ∈ p.subtree := by
  rw [subtree_eq, List.mem_cons, List.mem_flatMap]

theorem self_mem_subtree (n : Node) : n ∈ n.subtree := mem_subtree.mpr (.inl rfl)

theorem mem_subtree_of_part {n p m : Node} (hp : p ∈ n.parts) (hm : m ∈ p.subtree) : m ∈ n.subtree :=
  mem_subtree.mpr (.inr ⟨p, hp, hm⟩)

theorem mem_subtree_trans {n m p : Node} (hm : m ∈ n.subtree) (hp : p ∈ m.subtree) : p ∈ n.subtree := by
  induction n using induction_parts with
  | step n ih =>
    rcases mem_subtree.mp hm with rfl | ⟨q, hq, hm⟩
    · exact hp
    · exact mem_subtree_of_part hq (ih q hq hm)

/-- A node has a property if every node has it below which all nodes have it. -/
theorem induction_below {motive : Node → Prop}
    (step : ∀ n, (∀ p ∈ n.parts, ∀ m ∈ p.subtree, motive m) → motive n) (n : Node) : motive n := by
  suffices h : ∀ m ∈ n.subtree, motive m from h n n.self_mem_subtree
  induction n using induction_parts with
  | step n ih =>
    intro m hm
    rcases mem_subtree.mp hm with rfl | ⟨p, hp, hm⟩
    · exact step m ih
    · exact ih p hp m hm

theorem Nested.of_mem_subtree {n : Node} (h : Nested n) : ∀ m ∈ n.subtree, Nested m := by
  induction h with
  | @intro n hinside hapart hparts ih =>
    intro m hm
    rcases mem_subtree.mp hm with rfl | ⟨p, hp, hm⟩
    · exact .intro hinside hapart hparts
    · exact ih p hp m hm

/-- Whatever is below a nested node lies inside of it. -/
theorem Nested.subtree_inside {n : Node} (h : Nested n) :
    ∀ m ∈ n.subtree, n.span.contains m.span = true := by
  induction h with
  | @intro n hinside hapart hparts ih =>
    intro m hm
    rw [subtree_eq] at hm
    rcases List.mem_cons.mp hm with rfl | hm
    · exact Span.contains_refl _
    · obtain ⟨p, hp, hm⟩ := List.mem_flatMap.mp hm
      exact Span.contains_trans (hinside p hp) (ih p hp m hm)

theorem Nested.of_subtree {n : Node}
    (h : ∀ m ∈ n.subtree, (∀ p ∈ m.parts, m.span.contains p.span = true) ∧ Apart m.parts) : Nested n := by
  induction n using induction_parts with
  | step n ih =>
    rw [subtree_eq] at h
    obtain ⟨hinside, hapart⟩ := h n List.mem_cons_self
    refine .of_apart hinside hapart fun p hp => ih p hp fun m hm => ?_
    exact h m (List.mem_cons_of_mem n (List.mem_flatMap.mpr ⟨p, hp, hm⟩))

/-- The span of a call. -/
def callSpan? : Node → Option Span
  | .call span _ _ => some span
  | _ => none

theorem span_of_callSpan? {n : Node} {r : Span} (h : n.callSpan? = some r) : n.span = r := by
  cases n with
  | call => exact Option.some.inj h
  | _ => cases h

theorem callsOfAll_eq (source : List Char) (ns : List Node) :
    callsOfAll source ns = ns.flatMap (callsOf source) := by
  induction ns with
  | nil => rfl
  | cons n rest ih => rw [callsOfAll, ih, List.flatMap_cons]

theorem callsOfOption_eq (source : List Char) (o : Option Node) :
    callsOfOption source o = o.toList.flatMap (callsOf source) := by
  cases o with
  | none => rfl
  | some n => rw [callsOfOption, Option.toList_some, List.flatMap_singleton]

theorem callsOf_ranges_step (source : List Char) (n : Node) :
    (callsOf source n).map (·.range) =
      n.callSpan?.toList ++ n.parts.flatMap fun p => (callsOf source p).map (·.range) := by
  rw [← List.map_flatMap]
  cases n <;> simp [callsOf, callsOfAll_eq, callsOfOption_eq, parts, callSpan?, siteOf]

/-- The calls that are collected from a node are the calls below it. -/
theorem callsOf_ranges (source : List Char) (n : Node) :
    (callsOf source n).map (·.range) = n.subtree.filterMap callSpan? := by
  induction n using induction_parts with
  | step n ih =>
    rw [callsOf_ranges_step, subtree_eq, List.filterMap_cons, List.filterMap_flatMap]
    have hparts : (n.parts.flatMap fun p => (callsOf source p).map (·.range)) =
        n.parts.flatMap fun p => p.subtree.filterMap callSpan? :=
      List.flatMap_congr ih
    rw [hparts]
    cases n.callSpan? <;> rfl

end Node

/-- All nodes of a script. -/
def Program.nodes (program : Program) : List Node := program.body.flatMap Node.subtree

/-- The places of all calls of a script. -/
def Program.callSpans (program : Program) : List Span := program.nodes.filterMap Node.callSpan?

theorem Program.calls_ranges (program : Program) (source : String) :
    (program.calls source).map (·.range) = program.callSpans := by
  rw [calls, Node.callsOfAll_eq, List.map_flatMap, callSpans, nodes, List.filterMap_flatMap]
  exact List.flatMap_congr fun n _ => Node.callsOf_ranges source.toList n

theorem Program.Nested.nodes_inside {program : Program} {length : Nat} (h : program.Nested length) :
    ∀ n ∈ program.nodes, (⟨0, length⟩ : Span).contains n.span = true := by
  intro n hn
  obtain ⟨m, hm, hn⟩ := List.mem_flatMap.mp hn
  exact Span.contains_trans (h.inside m hm) ((h.trees m hm).subtree_inside n hn)

theorem Program.Nested.calls_inside {program : Program} {length : Nat} (h : program.Nested length) :
    ∀ r ∈ program.callSpans, (⟨0, length⟩ : Span).contains r = true := by
  intro r hr
  obtain ⟨n, hn, hcall⟩ := List.mem_filterMap.mp hr
  rw [← Node.span_of_callSpan? hcall]
  exact h.nodes_inside n hn

end PageProbe.Script
