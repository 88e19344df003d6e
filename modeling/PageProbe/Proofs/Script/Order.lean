import PageProbe.Proofs.Script.Subtree

/-!
A tree is walked part by part, and a few forms have their parts in another order than the text. Whether what
a walk comes across is in the order of the text nevertheless can be told node by node: just when, of any two
siblings in which there is something to come across, the one that is walked first ends before the other one
starts. For calls this is shown here.
-/

namespace PageProbe.Script
namespace Node

/-- Something of a kind is in a tree. -/
def Holds (kind : Node → Option Span) (n : Node) : Prop := ∃ r, r ∈ n.subtree.filterMap kind

/-- Of two nodes with something of a kind the first ends before the second starts. -/
def Ahead (kind : Node → Option Span) (n m : Node) : Prop :=
  n.Holds kind → m.Holds kind → n.span.stop ≤ m.span.start

/-- Everywhere in a tree the siblings with something of a kind are walked in the order of the text. -/
def InOrder (kind : Node → Option Span) (n : Node) : Prop :=
  ∀ m ∈ n.subtree, m.siblings.Pairwise (Ahead kind)

section
variable {kind : Node → Option Span} {n m p : Node}

theorem Holds.of_part (hp : p ∈ n.parts) (h : p.Holds kind) : n.Holds kind := by
  obtain ⟨r, hr⟩ := h
  obtain ⟨m, hm, hkind⟩ := List.mem_filterMap.mp hr
  exact ⟨r, List.mem_filterMap.mpr ⟨m, mem_subtree_of_part hp hm, hkind⟩⟩

/-- What is in a node ahead of another one is ahead of what is in the other one. -/
theorem hereditary_ahead (kind : Node → Option Span) : Hereditary (Ahead kind) where
  left hn h hp := fun hholds hholds' =>
    Nat.le_trans (hn.stop_le _ hp) (h (hholds.of_part hp) hholds')
  right hm h hp := fun hholds hholds' =>
    Nat.le_trans (h hholds (hholds'.of_part hp)) ((Span.contains_iff _ _).mp (hm.inside _ hp)).1

theorem inOrder_iff : n.InOrder kind ↔ n.siblings.Pairwise (Ahead kind) ∧ ∀ p ∈ n.parts, p.InOrder kind := by
  rw [InOrder, subtree_eq, List.forall_mem_cons]
  refine and_congr_right fun _ => ⟨fun h p hp m hm => ?_, fun h m hm => ?_⟩
  · exact h m (List.mem_flatMap.mpr ⟨p, hp, hm⟩)
  · obtain ⟨p, hp, hm⟩ := List.mem_flatMap.mp hm
    exact h p hp m hm

/-- It is enough that all siblings are walked in the order of the text. -/
theorem inOrder_of_subtree
    (h : ∀ m ∈ n.subtree, m.siblings.Pairwise fun p q => p.span.stop ≤ q.span.start) : n.InOrder kind :=
  fun m hm => (h m hm).imp fun hle _ _ => hle

theorem InOrder.siblings (h : n.InOrder kind) : n.siblings.Pairwise (Ahead kind) := (inOrder_iff.mp h).1

theorem InOrder.part (h : n.InOrder kind) : ∀ p ∈ n.parts, p.InOrder kind := (inOrder_iff.mp h).2

theorem InOrder.parts_ahead (h : n.InOrder kind) (hn : Nested n) :
    (n.parts.flatMap Node.exposed).Pairwise (Ahead kind) :=
  (hereditary_ahead kind).pairwise_parts hn h.siblings fun p hp => (h.part p hp).siblings

end

/-- The places of the calls of a node. -/
def calls (n : Node) : List Span := n.subtree.filterMap callSpan?

section
variable {n m p : Node} {r : Span}

theorem calls_eq (n : Node) : n.calls = n.callSpan?.toList ++ n.parts.flatMap calls := by
  rw [calls, subtree_eq, List.filterMap_cons, List.filterMap_flatMap]
  cases n.callSpan? <;> rfl

/-- A function is no call itself. -/
theorem exposed_calls (n : Node) : n.exposed.flatMap calls = n.calls := by
  cases n with
  | function => exact (calls_eq (.function ..)).symm
  | _ => exact List.flatMap_singleton ..

theorem calls_siblings (n : Node) : n.calls = n.callSpan?.toList ++ n.siblings.flatMap calls := by
  rw [calls_eq]
  have hexposed (ns : List Node) : (ns.flatMap exposed).flatMap calls = ns.flatMap calls := by
    rw [List.flatMap_assoc]
    exact List.flatMap_congr fun p _ => exposed_calls p
  cases n with
  | method => exact congrArg _ (hexposed _).symm
  | plain form =>
    cases form with
    | classMember => exact congrArg _ (hexposed _).symm
    | _ => rfl
  | _ => rfl

theorem Nested.exposed (hn : Nested n) : ∀ p ∈ n.exposed, Nested p := by
  intro p hp
  rcases n.exposed_eq with hself | ⟨hparts, -⟩
  · exact List.mem_singleton.mp (hself ▸ hp) ▸ hn
  · exact hn.part p (hparts ▸ hp)

theorem Nested.sibling (hn : Nested n) : ∀ p ∈ n.siblings, Nested p := by
  have hexposed (ns : List Node) (hns : ∀ p ∈ ns, Nested p) : ∀ p ∈ ns.flatMap Node.exposed, Nested p := by
    intro p hp
    obtain ⟨q, hq, hp⟩ := List.mem_flatMap.mp hp
    exact (hns q hq).exposed p hp
  cases n with
  | method => exact hexposed _ hn.part
  | plain form =>
    cases form with
    | classMember => exact hexposed _ hn.part
    | _ => exact hn.part
  | _ => exact hn.part

theorem Nested.calls_inside (hn : Nested n) (hr : r ∈ n.calls) : n.span.contains r = true := by
  obtain ⟨m, hm, hcall⟩ := List.mem_filterMap.mp hr
  exact span_of_callSpan? hcall ▸ hn.subtree_inside m hm

theorem calls_sublist (h : m ∈ n.subtree) : m.calls.Sublist n.calls := by
  induction n using induction_parts with
  | step n ih =>
    rcases mem_subtree.mp h with rfl | ⟨p, hp, hm⟩
    · exact .refl _
    · rw [n.calls_eq]
      have hpart : p.calls.Sublist (n.parts.flatMap calls) := by
        obtain ⟨front, back, hsplit⟩ := List.append_of_mem hp
        rw [hsplit, List.flatMap_append, List.flatMap_cons]
        exact (List.sublist_append_left _ _).trans (List.sublist_append_right _ _)
      exact ((ih p hp hm).trans hpart).trans (List.sublist_append_right _ _)

theorem Ahead.calls_le (h : Ahead callSpan? n m) (hn : Nested n) (hm : Nested m) {r r' : Span} (hr : r ∈ n.calls)
    (hr' : r' ∈ m.calls) : r.stop ≤ r'.start := by
  have hinside := (Span.contains_iff _ _).mp (hn.calls_inside hr)
  have hinside' := (Span.contains_iff _ _).mp (hm.calls_inside hr')
  have hahead := h ⟨r, hr⟩ ⟨r', hr'⟩
  omega

/-- Calls that come in the order of the text do not come from siblings in another order. -/
theorem siblings_ahead (hn : Nested n) (hcalls : ∀ r ∈ n.calls, r.start < r.stop)
    (hsorted : n.calls.Pairwise (·.start ≤ ·.start)) : n.siblings.Pairwise (Ahead callSpan?) := by
  rw [calls_siblings] at hcalls hsorted
  obtain ⟨-, hsorted, -⟩ := List.pairwise_append.mp hsorted
  obtain ⟨-, hcross⟩ := List.pairwise_flatMap.mp hsorted
  refine (hcross.and hn.apart).imp_of_mem fun {p q} hp hq h => ?_
  rintro ⟨r, hr⟩ ⟨r', hr'⟩
  have hbefore := h.1 r hr r' hr'
  have hroom := hcalls r' (List.mem_append_right _ (List.mem_flatMap.mpr ⟨q, hq, hr'⟩))
  have hinside := (Span.contains_iff _ _).mp ((hn.sibling p hp).calls_inside hr)
  have hinside' := (Span.contains_iff _ _).mp ((hn.sibling q hq).calls_inside hr')
  rcases (Span.overlaps_eq_false_iff _ _).mp h.2 with hle | hle <;> omega

theorem InOrder.calls_sorted (h : n.InOrder callSpan?) (hn : Nested n)
    (hcalls : ∀ r ∈ n.calls, r.start < r.stop) : n.calls.Pairwise (·.start ≤ ·.start) := by
  induction hn with
  | @intro n hinside hapart hparts ih =>
    have hn : Nested n := .intro hinside hapart hparts
    have hpart : ∀ p ∈ n.parts, ∀ r ∈ p.calls, r ∈ n.calls := fun p hp r hr =>
      n.calls_eq ▸ List.mem_append_right _ (List.mem_flatMap.mpr ⟨p, hp, hr⟩)
    have hcross : n.parts.Pairwise fun p q => ∀ r ∈ p.calls, ∀ r' ∈ q.calls, r.start ≤ r'.start := by
      obtain ⟨-, hahead⟩ := List.pairwise_flatMap.mp (h.parts_ahead hn)
      refine hahead.imp_of_mem fun {p q} hp hq hpq r hr r' hr' => ?_
      have hroom := hcalls r (hpart p hp r hr)
      rw [← exposed_calls] at hr hr'
      obtain ⟨m, hm, hr⟩ := List.mem_flatMap.mp hr
      obtain ⟨m', hm', hr'⟩ := List.mem_flatMap.mp hr'
      have hle := (hpq m hm m' hm').calls_le ((hparts p hp).exposed m hm) ((hparts q hq).exposed m' hm') hr hr'
      omega
    have hown : ∀ r ∈ n.callSpan?.toList, ∀ r' ∈ n.parts.flatMap calls, r.start ≤ r'.start := by
      intro r hr r' hr'
      have hspan : n.span = r := span_of_callSpan? (Option.mem_toList.mp hr)
      obtain ⟨p, hp, hr'⟩ := List.mem_flatMap.mp hr'
      exact hspan ▸ ((Span.contains_iff _ _).mp (hn.calls_inside (hpart p hp r' hr'))).1
    rw [calls_eq]
    refine List.pairwise_append.mpr ⟨?_, List.pairwise_flatMap.mpr ⟨fun p hp => ?_, hcross⟩, hown⟩
    · cases n.callSpan? with
      | none => exact .nil
      | some r => exact List.pairwise_singleton _ r
    · exact ih p hp (h.part p hp) fun r hr => hcalls r (hpart p hp r hr)

/-- The calls of a node come in the order of the text just when everywhere in it the siblings that hold calls
    do. -/
theorem calls_sorted_iff (hn : Nested n) (hcalls : ∀ r ∈ n.calls, r.start < r.stop) :
    n.calls.Pairwise (·.start ≤ ·.start) ↔ n.InOrder callSpan? := by
  refine ⟨fun h m hm => ?_, fun h => h.calls_sorted hn hcalls⟩
  have hsub := calls_sublist hm
  exact siblings_ahead (hn.of_mem_subtree m hm) (fun r hr => hcalls r (hsub.mem hr)) (h.sublist hsub)

end
end Node

/-- A script that is walked in the order of its text. -/
structure Program.InOrder (kind : Node → Option Span) (program : Program) : Prop where
  body : program.body.Pairwise (Node.Ahead kind)
  trees : ∀ n ∈ program.body, n.InOrder kind

/-- A script as one node. -/
def Program.whole (program : Program) (length : Nat) : Node := .plain .block ⟨0, length⟩ program.body

section
variable {program : Program} {length : Nat}

theorem Program.Nested.whole (h : program.Nested length) : (program.whole length).Nested :=
  .intro h.inside h.apart h.trees

theorem Program.inOrder_whole (length : Nat) {kind : Node → Option Span} :
    (program.whole length).InOrder kind ↔ program.InOrder kind :=
  Node.inOrder_iff.trans ⟨fun h => ⟨h.1, h.2⟩, fun h => ⟨h.body, h.trees⟩⟩

theorem Program.calls_whole (program : Program) (length : Nat) :
    (program.whole length).calls = program.callSpans := by
  rw [Node.calls_eq, callSpans, nodes, List.filterMap_flatMap]
  rfl

/-- The calls of a nested script are collected in the order of the text just when it is walked so as far as
    there are calls. -/
theorem Program.calls_sorted_iff (hnested : program.Nested length)
    (hcalls : ∀ r ∈ program.callSpans, r.start < r.stop) (source : String) :
    ((program.calls source).map (·.range.start)).Pairwise (· ≤ ·) ↔ program.InOrder Node.callSpan? := by
  rw [← inOrder_whole length, ← Node.calls_sorted_iff hnested.whole (by rwa [calls_whole]),
    calls_whole, ← calls_ranges program source, List.pairwise_map, List.pairwise_map]

end
end PageProbe.Script
