import PageProbe.Proofs.Script.Order
import PageProbe.Proofs.Tree.Enclosure

namespace PageProbe

open Script Script.Node

/-- Leaves beside each other in the order of their text. -/
def Leaf.Row (leaves : List Leaf) : Prop := leaves.Pairwise fun c c' => c.range.stop ≤ c'.range.start

/-- Nodes that can be walked in the order of the text as far as there are functions. -/
structure Items.Straight (items : Items) : Prop where
  nested : ∀ i ∈ items, i.2.Nested
  trees : ∀ i ∈ items, i.2.InOrder functionSpan?
  seen : items.seen.Pairwise (Ahead functionSpan?)

section
variable {s : Scope} {u : Use} {n : Node} {items rest : Items} {leaves : List Leaf}

theorem Items.Straight.left (h : (items ++ rest).Straight) : items.Straight := by
  have hseen := h.seen
  rw [Items.seen, List.flatMap_append] at hseen
  exact ⟨(List.forall_mem_append.mp h.nested).1, (List.forall_mem_append.mp h.trees).1,
    (List.pairwise_append.mp hseen).1⟩

theorem Items.Straight.right (h : (items ++ rest).Straight) : rest.Straight := by
  have hseen := h.seen
  rw [Items.seen, List.flatMap_append] at hseen
  exact ⟨(List.forall_mem_append.mp h.nested).2, (List.forall_mem_append.mp h.trees).2,
    (List.pairwise_append.mp hseen).2.1⟩

theorem Items.Straight.parts (hn : n.Nested) (h : n.InOrder functionSpan?) : (Items.walk n.parts).Straight :=
  ⟨Items.forall_walk hn.part, Items.forall_walk h.part, Items.seen_walk n.parts ▸ h.parts_ahead hn⟩

theorem Hands.straight (hands : Hands s u n items) (hn : n.Nested) (h : n.InOrder functionSpan?) :
    items.Straight :=
  ⟨hands.of_parts hn hn.part, hands.of_parts h h.part,
    hands.seen_pairwise (hereditary_ahead _) hn h.siblings fun p hp => (h.part p hp).siblings⟩

/-- A leaf that is made of some nodes is the leaf of a function below what others see of them. -/
theorem Made.below_seen (h : Made s items leaves) :
    ∀ l ∈ leaves, ∃ m ∈ items.seen, ∃ f ∈ m.subtree, f.functionSpan? = some l.range := by
  induction h with
  | idle => exact fun _ hl => nomatch hl
  | append _ _ ih ihrest =>
    intro l hl
    rw [Items.seen, List.flatMap_append]
    rcases List.mem_append.mp hl with hl | hl
    · obtain ⟨m, hm, hbelow⟩ := ih l hl
      exact ⟨m, List.mem_append_left _ hm, hbelow⟩
    · obtain ⟨m, hm, hbelow⟩ := ihrest l hl
      exact ⟨m, List.mem_append_right _ hm, hbelow⟩
  | hands hands _ ih =>
    intro l hl
    obtain ⟨m, hm, f, hf, hspan⟩ := ih l hl
    obtain ⟨m', hm', hbelow⟩ := hands.seen_below m hm
    rw [Items.seen, List.flatMap_singleton]
    exact ⟨m', hm', f, mem_subtree_trans hbelow hf, hspan⟩
  | @statement s span parts _ _ ih =>
    intro l hl
    obtain ⟨m, hm, f, hf, hspan⟩ := ih l hl
    obtain ⟨i, hi, hm⟩ := List.mem_flatMap.mp hm
    obtain ⟨p, hp, rfl⟩ := List.mem_map.mp hi
    have hbelow := mem_subtree_of_part (n := .statement span parts) hp (Use.walked.seen_below p m hm)
    exact ⟨.statement span parts, List.mem_singleton_self _, f, mem_subtree_trans hbelow hf, hspan⟩
  | @leaf s b n params children hn _ _ =>
    intro l hl
    rw [List.mem_singleton.mp hl]
    exact ⟨n, List.mem_singleton_self n, n, n.self_mem_subtree, by rw [hn, s.leafWith_range]⟩

theorem Items.seen_nested (h : ∀ i ∈ items, i.2.Nested) : ∀ m ∈ items.seen, m.Nested := by
  intro m hm
  obtain ⟨i, hi, hm⟩ := List.mem_flatMap.mp hm
  exact i.1.seen_nested (h i hi) m hm

/-- The leaf of a function in a node ahead of another one ends before any leaf of the other one starts. -/
theorem Script.Node.Ahead.leaf_le {m m' f f' : Node} {l l' : Leaf} (h : Ahead functionSpan? m m') (hm : m.Nested)
    (hm' : m'.Nested) (hf : f ∈ m.subtree) (hl : f.functionSpan? = some l.range) (hf' : f' ∈ m'.subtree)
    (hl' : f'.functionSpan? = some l'.range) : l.range.stop ≤ l'.range.start := by
  have hinside := (Span.contains_iff _ _).mp (span_of_functionSpan? hl ▸ hm.subtree_inside f hf)
  have hinside' := (Span.contains_iff _ _).mp (span_of_functionSpan? hl' ▸ hm'.subtree_inside f' hf')
  have hahead := h ⟨_, List.mem_filterMap.mpr ⟨f, hf, hl⟩⟩ ⟨_, List.mem_filterMap.mpr ⟨f', hf', hl'⟩⟩
  omega

/-- Of nodes in the order of the text come leaves in that order, at every depth. -/
theorem Made.row (h : Made s items leaves) (hitems : items.Straight) :
    Leaf.Row leaves ∧ ∀ l ∈ Leaf.walkAll leaves, Leaf.Row l.children := by
  induction h with
  | idle => exact ⟨.nil, fun _ hl => nomatch hl⟩
  | append hmade hmore ih ihrest =>
    obtain ⟨hrow, hbelow⟩ := ih hitems.left
    obtain ⟨hrow', hbelow'⟩ := ihrest hitems.right
    refine ⟨List.pairwise_append.mpr ⟨hrow, hrow', fun l hl l' hl' => ?_⟩, fun l hl => ?_⟩
    · obtain ⟨m, hm, f, hf, hspan⟩ := hmade.below_seen l hl
      obtain ⟨m', hm', f', hf', hspan'⟩ := hmore.below_seen l' hl'
      have hseen := hitems.seen
      rw [Items.seen, List.flatMap_append] at hseen
      have hahead := (List.pairwise_append.mp hseen).2.2 m hm m' hm'
      exact hahead.leaf_le (Items.seen_nested hitems.left.nested m hm)
        (Items.seen_nested hitems.right.nested m' hm') hf hspan hf' hspan'
    · exact (Leaf.mem_walkAll_append.mp hl).elim (hbelow l) (hbelow' l)
  | hands hands _ ih =>
    have hn := hitems.nested _ List.mem_cons_self
    exact ih (hands.straight hn (hitems.trees _ List.mem_cons_self))
  | @statement s span parts _ _ ih =>
    have hn := hitems.nested _ List.mem_cons_self
    exact ih (.parts hn (hitems.trees _ List.mem_cons_self))
  | @leaf s b n params children _ _ ih =>
    have hn := hitems.nested _ List.mem_cons_self
    obtain ⟨hrow, hbelow⟩ := ih (.parts hn (hitems.trees _ List.mem_cons_self))
    refine ⟨List.pairwise_singleton _ _, fun l hl => ?_⟩
    rcases Leaf.mem_walkAll_single.mp hl with rfl | hl
    · exact hrow
    · exact hbelow l hl

end

theorem Script.Program.InOrder.straight {program : Program} {length : Nat} (h : program.InOrder functionSpan?)
    (hnested : program.Nested length) : (Items.walk program.body).Straight :=
  .parts hnested.whole ((inOrder_whole length).mpr h)

/-- All leaves of a script are leaves of its functions. -/
theorem Discovery.leaf_functions {program : Program} {file source : String} {withAnonymous : Bool}
    {found : Discovery} (hfound : Discovery.ofProgram program file source withAnonymous = .ok found) :
    ∀ l ∈ Leaf.walkAll found.root.children, l.range ∈ program.functionSpans := by
  obtain ⟨children, hmade, hroot⟩ := ofProgram_made hfound
  intro l hl
  rw [hroot] at hl
  obtain ⟨f, hf, hspan⟩ := hmade.function l hl
  rw [Items.nodes_walk] at hf
  exact List.mem_filterMap.mpr ⟨f, hf, hspan⟩

/-- Where a nested script is walked in the order of its text as far as there are functions, each leaf ends
    before the next one below the same leaf starts. -/
theorem Discovery.children_row {program : Program} {file source : String} {withAnonymous : Bool}
    {found : Discovery} (hnested : program.Nested (Text.width source.toList))
    (horder : program.InOrder functionSpan?)
    (hfound : Discovery.ofProgram program file source withAnonymous = .ok found) :
    ∀ leaf ∈ found.root.walk, Leaf.Row leaf.children := by
  obtain ⟨children, hmade, hroot⟩ := ofProgram_made hfound
  obtain ⟨hrow, hbelow⟩ := hmade.row (horder.straight hnested)
  intro leaf hleaf
  rw [hroot, Leaf.walk_eq, ← Leaf.walkAll_eq] at hleaf
  rcases List.mem_cons.mp hleaf with rfl | hleaf
  · exact hrow
  · exact hbelow leaf hleaf

/-- The calls of a nested script come in the order of the text just when the script is walked in that order as
    far as there are calls. For either choice about functions without a name, the leaves below each leaf come in
    that order, none reaching into the next one, where the script is walked so as far as there are functions. -/
theorem Discovery.ofProgram_order {program : Program} {file source : String}
    (hnested : program.Nested (Text.width source.toList)) (hcalls : ∀ r ∈ program.callSpans, r.start < r.stop)
    (hfunctions : ∀ r ∈ program.functionSpans, r.start < r.stop) :
    (((program.calls source).map (·.range.start)).Pairwise (· ≤ ·) ↔ program.InOrder callSpan?) ∧
    (program.InOrder functionSpan? → ∀ withAnonymous found,
      Discovery.ofProgram program file source withAnonymous = .ok found → ∀ leaf ∈ found.root.walk,
        leaf.children.Pairwise fun c c' =>
          c.range.start < c'.range.start ∧ c.range.stop ≤ c'.range.start) := by
  refine ⟨program.calls_sorted_iff hnested hcalls source, fun horder withAnonymous found hfound leaf hleaf => ?_⟩
  have hroom : ∀ c ∈ leaf.children, c.range.start < c.range.stop := by
    intro c hc
    refine hfunctions _ (leaf_functions hfound c ?_)
    have hwalk := Leaf.mem_walk_of_child hc c.self_mem_walk
    rw [Leaf.walk_eq] at hleaf
    rcases List.mem_cons.mp hleaf with rfl | hleaf
    · exact Leaf.walkAll_eq _ ▸ List.mem_flatMap.mpr ⟨c, hc, c.self_mem_walk⟩
    · obtain ⟨top, htop, hleaf⟩ := List.mem_flatMap.mp hleaf
      exact Leaf.walkAll_eq _ ▸ List.mem_flatMap.mpr ⟨top, htop, Leaf.mem_walk_trans hleaf hwalk⟩
  refine (children_row hnested horder hfound leaf hleaf).imp_of_mem fun {c c'} hc _ hle => ?_
  exact ⟨Nat.lt_of_lt_of_le (hroom c hc) hle, hle⟩

namespace Sample

/-- A name that gets a function with a call in it, such as `f=()=>a()`. -/
def binding (start : Nat) (name callee : String) : Node :=
  .assign ⟨start, start + 9⟩ true (.name ⟨start, start + 1⟩ name) (.arrow ⟨start + 2, start + 9⟩ []
    [.call ⟨start + 6, start + 9⟩ (.name ⟨start + 6, start + 7⟩ callee) []])

/-- A loop with a name in its test and one in its body. The test is walked first. -/
def loop (stop test body : Nat) : Node :=
  .statement ⟨0, stop⟩ [binding test "g" "b", .statement ⟨body, body + 10⟩ [binding body "f" "a"]]

def whileSource : String := "while(g=()=>b())f=()=>a();"

def whileProgram : Program := ⟨[loop 26 6 16]⟩

def doSource : String := "do f=()=>a();while(g=()=>b());"

/-- In the text the test comes last. -/
def doProgram : Program := ⟨[loop 30 19 3]⟩

def bindingNodes (start : Nat) (name callee : String) : List Node :=
  [binding start name callee, .name ⟨start, start + 1⟩ name,
    .arrow ⟨start + 2, start + 9⟩ [] [.call ⟨start + 6, start + 9⟩ (.name ⟨start + 6, start + 7⟩ callee) []],
    .call ⟨start + 6, start + 9⟩ (.name ⟨start + 6, start + 7⟩ callee) [], .name ⟨start + 6, start + 7⟩ callee]

theorem loop_subtree (stop test body : Nat) : (loop stop test body).subtree =
    loop stop test body :: bindingNodes test "g" "b" ++
      .statement ⟨body, body + 10⟩ [binding body "f" "a"] :: bindingNodes body "f" "a" := by
  simp [loop, bindingNodes, binding, subtree_eq, parts]

theorem whileProgram_nested : whileProgram.Nested 26 where
  inside := by decide
  apart := by decide
  trees n hn := by
    refine .of_subtree ?_
    rw [List.mem_singleton.mp hn, loop_subtree]
    decide

theorem whileProgram_inOrder (kind : Node → Option Span) : whileProgram.InOrder kind where
  body := List.pairwise_singleton _ _
  trees n hn := by
    refine inOrder_of_subtree ?_
    rw [List.mem_singleton.mp hn, loop_subtree]
    decide

theorem doProgram_nested : doProgram.Nested 30 where
  inside := by decide
  apart := by decide
  trees n hn := by
    refine .of_subtree ?_
    rw [List.mem_singleton.mp hn, loop_subtree]
    decide

end Sample

theorem Discovery.ofProgram_order_while :
    Sample.whileProgram.Nested (Text.width Sample.whileSource.toList) ∧
    ((Sample.whileProgram.calls Sample.whileSource).map (·.range.start)).Pairwise (· ≤ ·) ∧
    ∃ found, Discovery.ofProgram Sample.whileProgram "a.js" Sample.whileSource false = .ok found ∧
      found.root.children.map (·.path) = ["/a.js/g", "/a.js/f"] ∧
      found.root.children.Pairwise fun c c' => c.range.start < c'.range.start ∧ c.range.stop ≤ c'.range.start := by
  have hcalls : ∀ r ∈ Sample.whileProgram.callSpans, r.start < r.stop := by
    rw [← Program.calls_ranges Sample.whileProgram Sample.whileSource]
    decide
  have hfunctions : ∀ r ∈ Sample.whileProgram.functionSpans, r.start < r.stop := by
    rw [← Sample.whileProgram.functions_ranges false]
    decide +kernel
  obtain ⟨hiff, hrows⟩ := @ofProgram_order Sample.whileProgram "a.js" Sample.whileSource
    Sample.whileProgram_nested hcalls hfunctions
  exact ⟨Sample.whileProgram_nested, hiff.mpr (Sample.whileProgram_inOrder _), _, rfl, by decide,
    hrows (Sample.whileProgram_inOrder _) false _ rfl _ (Leaf.self_mem_walk _)⟩

/-- Where a test is walked before the body that is in front of it in the text, calls and leaves come in the
    wrong order. -/
theorem Discovery.ofProgram_order_do :
    Sample.doProgram.Nested (Text.width Sample.doSource.toList) ∧
    (Sample.doProgram.calls Sample.doSource).map (·.range.start) = [25, 9] ∧
    ∀ withAnonymous, ∃ found, Discovery.ofProgram Sample.doProgram "a.js" Sample.doSource withAnonymous = .ok found ∧
      found.root.children.map (·.path) = ["/a.js/g", "/a.js/f"] ∧
      found.root.children.map (·.range.start) = [21, 5] := by
  refine ⟨Sample.doProgram_nested, by decide, fun withAnonymous => ?_⟩
  cases withAnonymous <;> exact ⟨_, rfl, by decide, by decide⟩

end PageProbe
