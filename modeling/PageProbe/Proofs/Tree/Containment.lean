import PageProbe.Proofs.Tree.Making

namespace PageProbe

open Script Script.Node

def Use.Reaches (u : Use) (length stop : Nat) : Prop := stop ≤ u.point stop ∧ u.point stop ≤ length

/-- Nodes that can be taken in a scope for what they are. -/
def Items.Ready (length : Nat) (s : Scope) (items : Items) : Prop :=
  ∀ i ∈ items, PageProbe.Ready length s i.2 ∧ i.1.Reaches length i.2.span.stop

section
variable {length : Nat} {s : Scope} {u : Use} {n : Node} {items : Items}

/-- A place that is told for a node lies behind whatever is in the node. -/
theorem Use.Reaches.mono {stop stop' : Nat} (h : u.Reaches length stop) (hle : stop' ≤ stop) :
    u.Reaches length stop' := by
  cases u with
  | bound b | extension b => exact Bound.Reaches.mono h hle
  | _ =>
    obtain ⟨hlow, hhigh⟩ := h
    simp only [Reaches, point] at hlow hhigh ⊢
    omega

/-- What is only walked says nothing about a place. -/
theorem Ready.walked (h : Ready length s n) : Use.walked.Reaches length n.span.stop :=
  ⟨Nat.le_refl _, Nat.le_trans h.reaches.1 h.reaches.2⟩

theorem Items.Ready.walk {ns : List Node} (h : ∀ n ∈ ns, PageProbe.Ready length s n) :
    (Items.walk ns).Ready length s := by
  intro i hi
  obtain ⟨n, hn, rfl⟩ := List.mem_map.mp hi
  exact ⟨h n hn, (h n hn).walked⟩

theorem Items.Ready.inner (h : PageProbe.Ready length s n) (path : String) :
    (Items.walk n.parts).Ready length { s with path := path } :=
  .walk fun p hp => ⟨h.nested.part p hp, (h.part p hp).reaches⟩

/-- The parts of a statement can be taken in the scope that it opens. -/
theorem Items.Ready.statement {span : Span} {parts : List Node} (h : Nested (.statement span parts))
    (hle : span.stop ≤ length) : (Items.walk parts).Ready length { s with statementEnd := some span.stop } :=
  .walk fun p hp => ⟨h.part p hp, h.stop_le p hp, hle⟩

/-- What a node hands on can be taken for what it is handed on as. -/
theorem Hands.ready (h : Hands s u n items) (hn : Ready length s n) (hu : u.Reaches length n.span.stop) :
    items.Ready length s := by
  intro i hi
  have hstop : i.2.span.stop ≤ n.span.stop :=
    h.of_parts (P := (·.span.stop ≤ n.span.stop)) (Nat.le_refl _) hn.nested.stop_le i hi
  have hi' : Ready length s i.2 := h.of_parts hn hn.part i hi
  refine ⟨hi', ?_⟩
  obtain ⟨hlow, hhigh⟩ := hn.reaches
  cases h.point i hi with
  | walked hv => exact hv ▸ hi'.walked
  | kept _ hv => exact ⟨hv _ ▸ (hu.mono hstop).1, hv _ ▸ (hu.mono hstop).2⟩
  | statement hv =>
    rw [Use.Reaches, hv]
    omega
  | declaration _ hv =>
    rw [Use.Reaches]
    rcases hv i.2.span.stop with hv | hv <;>
    · rw [hv]
      omega

/-- Others see a node, or its parts. -/
theorem Use.seen_eq (u : Use) (n : Node) :
    u.seen n = [n] ∨ u.seen n = n.parts ∧ n.isStatement = false := by
  cases u with
  | walked => cases n with
    | function => exact .inr ⟨rfl, rfl⟩
    | _ => exact .inl rfl
  | _ => exact .inl rfl

theorem Use.seen_nested (u : Use) (hn : Nested n) : ∀ m ∈ u.seen n, Nested m := by
  intro m hm
  rcases u.seen_eq n with hseen | ⟨hseen, -⟩
  · exact List.mem_singleton.mp (hseen ▸ hm) ▸ hn
  · exact hn.part m (hseen ▸ hm)

theorem Use.seen_below (u : Use) (n : Node) : ∀ m ∈ u.seen n, m ∈ n.subtree := by
  intro m hm
  rcases u.seen_eq n with hseen | ⟨hseen, -⟩
  · exact List.mem_singleton.mp (hseen ▸ hm) ▸ n.self_mem_subtree
  · exact mem_subtree_of_part (hseen ▸ hm) m.self_mem_subtree

section
variable {R : Node → Node → Prop}

theorem Use.seen_pairwise (u : Use) (h : n.siblings.Pairwise R) : (u.seen n).Pairwise R := by
  cases u with
  | walked => exact exposed_pairwise h
  | _ => exact List.pairwise_singleton R n

/-- Nodes in a relation may be seen for what they are taken for. -/
theorem Items.seen_pairwise (hR : Hereditary R) (h : (items.map Prod.snd).Pairwise R)
    (hnested : ∀ i ∈ items, Nested i.2) (hsiblings : ∀ i ∈ items, i.2.siblings.Pairwise R) :
    items.seen.Pairwise R := by
  rw [Items.seen, List.pairwise_flatMap]
  refine ⟨fun i hi => i.1.seen_pairwise (hsiblings i hi), ?_⟩
  exact (List.pairwise_map.mp h).imp_of_mem fun {i j} hi hj hij =>
    hR.of_seen (hnested i hi) (hnested j hj) hij ((i.1.seen_eq i.2).imp_right And.left)
      ((j.1.seen_eq j.2).imp_right And.left)

end

theorem Items.seen_walk (ns : List Node) : (Items.walk ns).seen = ns.flatMap exposed := by
  rw [walk, seen, List.flatMap_map]
  rfl

theorem Items.seen_walk_inside (hn : Nested n) :
    ∀ m ∈ (Items.walk n.parts).seen, n.span.contains m.span = true := by
  intro m hm
  obtain ⟨p, hp, hm⟩ := List.mem_flatMap.mp (Items.seen_walk n.parts ▸ hm)
  exact Span.contains_trans (hn.inside p hp) ((hn.part p hp).exposed_inside m hm)

/-- What a node hands on is as its siblings are. -/
theorem Hands.seen_pairwise {R : Node → Node → Prop} (h : Hands s u n items) (hR : Hereditary R)
    (hn : Nested n) (hsiblings : n.siblings.Pairwise R) (hparts : ∀ p ∈ n.parts, p.siblings.Pairwise R) :
    items.seen.Pairwise R := by
  have hnested := h.of_parts hn hn.part
  have hitems := h.of_parts (P := fun p => p.siblings.Pairwise R) hsiblings hparts
  cases h with
  | parts => exact Items.seen_walk n.parts ▸ hR.pairwise_parts hn hsiblings hparts
  | names | members => exact Items.seen_pairwise hR (Items.nodes_map _ _ ▸ hsiblings) hnested hitems
  | extensions | arguments =>
    refine Items.seen_pairwise hR ?_ hnested hitems
    rw [List.map_cons, Items.nodes_map]
    exact hsiblings
  | property =>
    refine Items.seen_pairwise hR ?_ hnested hitems
    rw [Items.walk, List.map_append, Items.nodes_map]
    exact hsiblings
  | assignment | chain | initial => exact Items.seen_pairwise hR hsiblings hnested hitems
  | _ => exact Items.seen_pairwise hR (List.pairwise_singleton R _) hnested hitems

theorem Items.seen_walk_apart (hn : Nested n) : Apart (Items.walk n.parts).seen :=
  Items.seen_walk n.parts ▸ hereditary_apart.pairwise_parts hn hn.apart fun p hp => (hn.part p hp).apart

/-- What a node hands on does not overlap. -/
theorem Hands.seen_apart (h : Hands s u n items) (hn : Nested n) : Apart items.seen :=
  h.seen_pairwise hereditary_apart hn hn.apart fun p hp => (hn.part p hp).apart

/-- What a node hands on is below what others see of the node. -/
theorem Hands.seen_below (h : Hands s u n items) : ∀ m ∈ items.seen, ∃ m' ∈ u.seen n, m ∈ m'.subtree := by
  intro m hm
  obtain ⟨i, hi, hm⟩ := List.mem_flatMap.mp hm
  have hbelow := i.1.seen_below i.2 m hm
  rcases h.mem i hi with ⟨hpart, -⟩ | ⟨hsame, helement⟩
  · rcases u.seen_eq n with hseen | ⟨hseen, -⟩
    · exact ⟨n, hseen ▸ List.mem_singleton_self n, mem_subtree_of_part hpart hbelow⟩
    · exact ⟨i.2, hseen ▸ hpart, hbelow⟩
  · have hseen : u.seen n = [n] := by
      cases u with
      | walked | bound => cases helement
      | _ => rfl
    exact ⟨n, hseen ▸ List.mem_singleton_self n, hsame ▸ hbelow⟩

/-- What a node hands on lies inside of what others see of the node. -/
theorem Hands.seen_inside (h : Hands s u n items) (hn : Nested n) :
    ∀ m ∈ items.seen, ∃ m' ∈ u.seen n, m'.span.contains m.span = true := by
  intro m hm
  obtain ⟨m', hm', hbelow⟩ := h.seen_below m hm
  exact ⟨m', hm', (u.seen_nested hn m' hm').subtree_inside m hbelow⟩

end

/-- Leaves fit the nodes that they are made of. -/
theorem Made.fits {length : Nat} {s : Scope} {items : Items} {leaves : List Leaf} (h : Made s items leaves)
    (hready : items.Ready length s) (hapart : Apart items.seen) : Fit length items.seen leaves := by
  induction h with
  | idle => exact .nil
  | append _ _ ih ihrest =>
    rw [Items.seen, List.flatMap_append] at hapart ⊢
    obtain ⟨hitems, hrest, -⟩ := List.pairwise_append.mp hapart
    obtain ⟨hready, hready'⟩ := List.forall_mem_append.mp hready
    exact (ih hready hitems).append (ihrest hready' hrest) hapart
  | hands hands _ ih =>
    obtain ⟨hn, hu⟩ := hready _ List.mem_cons_self
    have hfit := ih (hands.ready hn hu) (hands.seen_apart hn.nested)
    refine hfit.mono fun m hm => ?_
    rw [Items.seen, List.flatMap_singleton]
    exact hands.seen_inside hn.nested m hm
  | @statement s span parts _ _ ih =>
    obtain ⟨hn, -⟩ := hready _ List.mem_cons_self
    have hlength : span.stop ≤ length := Nat.le_trans hn.reaches.1 hn.reaches.2
    exact (ih (.statement hn.nested hlength) (Items.seen_walk_apart hn.nested)).mono fun m hm =>
      ⟨.statement span parts, List.mem_singleton_self _, Items.seen_walk_inside hn.nested m hm⟩
  | @leaf s b n params _ _ _ ih =>
    obtain ⟨hn, hb⟩ := hready _ List.mem_cons_self
    exact Fit.leaf hb (ih (.inner hn _) (Items.seen_walk_apart hn.nested)) (Items.seen_walk_inside hn.nested)

theorem Leaf.walkAll_eq (leaves : List Leaf) : walkAll leaves = leaves.flatMap walk := by
  induction leaves with
  | nil => rfl
  | cons leaf rest ih => rw [walkAll, ih, List.flatMap_cons]

theorem Leaf.walk_eq (leaf : Leaf) : leaf.walk = leaf :: leaf.children.flatMap walk := by
  cases leaf
  rw [walk, walkAll_eq]

theorem Leaf.mem_walkAll_append {leaves more : List Leaf} {l : Leaf} :
    l ∈ walkAll (leaves ++ more) ↔ l ∈ walkAll leaves ∨ l ∈ walkAll more := by
  simp only [walkAll_eq, List.flatMap_append, List.mem_append]

theorem Leaf.mem_walkAll_single {leaf l : Leaf} : l ∈ walkAll [leaf] ↔ l = leaf ∨ l ∈ walkAll leaf.children := by
  rw [walkAll_eq, List.flatMap_singleton, walk_eq, List.mem_cons, walkAll_eq]

theorem Leaf.Placed.walk {length : Nat} {leaf : Leaf} (h : leaf.Placed length) :
    ∀ l ∈ leaf.walk, l.Placed length := by
  induction h with
  | @intro leaf hinside hapart hbehind hwithin hchildren ih =>
    intro l hl
    rw [Leaf.walk_eq] at hl
    rcases List.mem_cons.mp hl with rfl | hl
    · exact .intro hinside hapart hbehind hwithin hchildren
    · obtain ⟨c, hc, hl⟩ := List.mem_flatMap.mp hl
      exact ih c hc l hl

/-- The statements of a nested script can be indexed. -/
theorem Script.Program.Nested.ready {program : Program} {length : Nat} (h : program.Nested length)
    {s : Scope} (hs : s.statementEnd = none) : (Items.walk program.body).Ready length s := by
  refine .walk fun n hn => ?_
  have hinside := (Span.contains_iff _ _).mp (h.inside n hn)
  have hend : s.endOr n.span.stop = n.span.stop := by rw [Scope.endOr, hs, Option.getD_none]
  exact ⟨h.trees n hn, Nat.le_of_eq hend.symm, Nat.le_trans (Nat.le_of_eq hend) hinside.2⟩

theorem Script.Program.Nested.seen_apart {program : Program} {length : Nat} (h : program.Nested length) :
    Apart (Items.walk program.body).seen :=
  Items.seen_walk program.body ▸ h.apart.exposed h.trees

/-- The root spans the whole text. -/
theorem Discovery.root_placed {program : Program} {file source : String} {withAnonymous : Bool}
    {found : Discovery} (hnested : program.Nested (Text.width source.toList))
    (hfound : Discovery.ofProgram program file source withAnonymous = .ok found) :
    found.root.range = ⟨0, Text.width source.toList⟩ ∧ found.root.Placed (Text.width source.toList) := by
  obtain ⟨children, hmade, hroot⟩ := ofProgram_made hfound
  have hchildren := hmade.fits (hnested.ready rfl) hnested.seen_apart
  rw [hroot]
  refine ⟨rfl, .intro (fun c hc => ?_) hchildren.apart (Nat.le_refl _) (Nat.le_refl _) hchildren.placed⟩
  obtain ⟨m, hm, hcontains⟩ := hchildren.inside c hc
  obtain ⟨n, hn, hm⟩ := List.mem_flatMap.mp (Items.seen_walk program.body ▸ hm)
  exact Span.contains_trans (hnested.inside n hn)
    (Span.contains_trans ((hnested.trees n hn).exposed_inside m hm) hcontains)

/-- For either choice about functions without a name, the leaves of a nested script are nested as well:
    every leaf holds its children, which do not overlap, and its injection point lies between its own
    end and the end of the script. Nothing is assumed of the text, and the function of a method may
    start at its key. -/
theorem Discovery.ofProgram_containment {program : Program} {file source : String} {withAnonymous : Bool}
    {found : Discovery} (hnested : program.Nested (Text.width source.toList))
    (hfound : Discovery.ofProgram program file source withAnonymous = .ok found) :
    found.root.range = ⟨0, Text.width source.toList⟩ ∧
    ∀ leaf ∈ found.root.walk,
      (∀ c ∈ leaf.children, leaf.range.contains c.range = true) ∧
      (leaf.children.Pairwise fun c c' => c.range.overlaps c'.range = false) ∧
      leaf.range.stop ≤ leaf.injectionPoint ∧ leaf.injectionPoint ≤ Text.width source.toList := by
  obtain ⟨hrange, hplaced⟩ := root_placed hnested hfound
  refine ⟨hrange, fun leaf hleaf => ?_⟩
  cases hplaced.walk leaf hleaf with
  | intro hinside hapart hbehind hwithin _ => exact ⟨hinside, hapart, hbehind, hwithin⟩

namespace Sample

def source : String := "var o = \x7b m() \x7b\x7d \x7d;"

/-- The member in the source, whose function starts at its key. -/
def method : Node := .method ⟨10, 16⟩ 10 (some "m") [] (.function ⟨10, 16⟩ false [] [])

/-- The name in the source, with its value. -/
def declarator : Node := .declarator ⟨4, 18⟩ (.name ⟨4, 5⟩ "o") (some (.object ⟨8, 18⟩ [method]))

def program : Program := ⟨[.statement ⟨0, 19⟩ [.varDecl ⟨0, 19⟩ [declarator]]]⟩

theorem method_nested : method.Nested := by
  refine .of_apart (by decide) (by decide) fun p hp => ?_
  rw [List.mem_singleton.mp hp]
  exact .of_apart (by decide) (by decide) nofun

theorem declarator_nested : declarator.Nested := by
  refine .of_apart (by decide) (by decide) fun p hp => ?_
  rcases List.mem_cons.mp hp with rfl | hp
  · exact .of_apart (by decide) (by decide) nofun
  · rw [List.mem_singleton.mp hp]
    refine .of_apart (by decide) (by decide) fun p hp => ?_
    rw [List.mem_singleton.mp hp]
    exact method_nested

theorem program_nested : program.Nested 19 where
  inside := by decide
  apart := by decide
  trees n hn := by
    rw [List.mem_singleton.mp hn]
    refine .of_apart (by decide) (by decide) fun p hp => ?_
    rw [List.mem_singleton.mp hp]
    refine .of_apart (by decide) (by decide) fun p hp => ?_
    rw [List.mem_singleton.mp hp]
    exact declarator_nested

end Sample

theorem Discovery.ofProgram_containment_method :
    ∃ found, Discovery.ofProgram Sample.program "a.js" Sample.source true = .ok found ∧
      ∀ leaf ∈ found.root.walk, leaf.injectionPoint ≤ 19 := by
  refine ⟨_, rfl, fun leaf hleaf => ?_⟩
  have hnested : Sample.program.Nested (Text.width Sample.source.toList) := Sample.program_nested
  obtain ⟨_, hcontained⟩ := ofProgram_containment hnested rfl
  exact (hcontained leaf hleaf).2.2.2

end PageProbe
