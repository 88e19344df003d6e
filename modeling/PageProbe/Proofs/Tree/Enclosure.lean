import PageProbe.Proofs.Tree.Usage

namespace PageProbe

open Script Script.Node

/-- A statement that lies strictly between the ends of a span. -/
def Script.Node.StatementIn (e : Span) (t : Node) : Prop :=
  t.isStatement = true ∧ e.start < t.span.start ∧ t.span.stop < e.stop

instance (e : Span) (t : Node) : Decidable (t.StatementIn e) :=
  inferInstanceAs (Decidable (t.isStatement = true ∧ e.start < t.span.start ∧ t.span.stop < e.stop))

/-- All statements below a node lie strictly between the ends of a span. -/
def Script.Node.StatementsIn (e : Span) (n : Node) : Prop :=
  ∀ t ∈ n.subtree, t.isStatement = true → t.StatementIn e

/-- What the grammar says of the places of statements: a declaration is part of a statement, and a function
    takes some room and has its statements strictly between its ends. -/
structure Script.Node.Lawful (n : Node) : Prop where
  shaped : n.Shaped
  declarations : ∀ m ∈ n.subtree, m.isStatement = false → ∀ p ∈ m.parts, p.isDeclaration = false
  functions : ∀ f ∈ n.subtree, f.functionSpan?.isSome = true →
    f.span.start < f.span.stop ∧ f.StatementsIn f.span

theorem Script.Node.StatementsIn.part {e : Span} {n p : Node} (h : n.StatementsIn e) (hp : p ∈ n.parts) :
    p.StatementsIn e := fun t ht => h t (mem_subtree_of_part hp ht)

theorem Script.Node.Lawful.part {n : Node} (h : n.Lawful) : ∀ p ∈ n.parts, p.Lawful := fun _ hp =>
  ⟨h.shaped.part hp, fun m hm => h.declarations m (mem_subtree_of_part hp hm),
    fun f hf => h.functions f (mem_subtree_of_part hp hf)⟩

/-- A script of statements of the grammar. -/
structure Script.Program.Lawful (program : Program) : Prop where
  statements : ∀ n ∈ program.body, n.isStatement = true
  trees : ∀ n ∈ program.body, n.Lawful

theorem Script.Node.span_of_functionSpan? {n : Node} {r : Span} (h : n.functionSpan? = some r) :
    n.span = r := by
  cases n with
  | function | arrow => exact Option.some.inj h
  | _ => cases h

theorem Script.Node.isStatement_of_functionSpan? {n : Node} (h : n.functionSpan?.isSome = true) :
    n.isStatement = false := by
  cases n with
  | statement => cases h
  | _ => rfl

theorem Script.Node.Lawful.function {n : Node} (h : n.Lawful) (hn : n.functionSpan?.isSome = true) :
    n.StatementsIn n.span := (h.functions n n.self_mem_subtree hn).2

/-- One of some nodes is a statement inside of `e` that holds `r`. -/
def Between (ns : List Node) (e r : Span) : Prop := ∃ t ∈ ns, t.StatementIn e ∧ t.span.contains r = true

theorem Between.mono {ns ms : List Node} {e r : Span} (h : Between ns e r) (hns : ns ⊆ ms) :
    Between ms e r := by
  obtain ⟨t, ht, hholds⟩ := h
  exact ⟨t, hns ht, hholds⟩

/-- The statements of a node are in what others see of it. -/
theorem Use.mem_seen_subtree (u : Use) {n t : Node} (ht : t ∈ n.subtree) (hstatement : t.isStatement = true) :
    ∃ m ∈ u.seen n, t ∈ m.subtree := by
  rcases u.seen_eq n with hseen | ⟨hseen, hn⟩
  · exact ⟨n, hseen ▸ List.mem_singleton_self n, ht⟩
  · rcases mem_subtree.mp ht with rfl | ⟨p, hp, ht⟩
    · rw [hn] at hstatement
      cases hstatement
    · exact ⟨p, hseen ▸ hp, ht⟩

theorem Leaf.Placed.behind {length : Nat} {leaf : Leaf} (h : leaf.Placed length) :
    leaf.range.stop ≤ leaf.injectionPoint := by
  cases h with
  | intro _ _ hbehind _ _ => exact hbehind

theorem Leaf.Placed.within {length : Nat} {leaf : Leaf} (h : leaf.Placed length) :
    leaf.injectionPoint ≤ length := by
  cases h with
  | intro _ _ _ hwithin _ => exact hwithin

theorem Leaf.Placed.walkAll_inside {length : Nat} {leaf : Leaf} (h : leaf.Placed length) :
    ∀ l ∈ walkAll leaf.children, leaf.range.contains l.range = true := by
  intro l hl
  rw [walkAll_eq] at hl
  exact h.walk_inside l (walk_eq leaf ▸ List.mem_cons_of_mem leaf hl)

theorem Fit.walkAll_placed {length : Nat} {ns : List Node} {leaves : List Leaf} (h : Fit length ns leaves) :
    ∀ l ∈ Leaf.walkAll leaves, l.Placed length := by
  intro l hl
  rw [Leaf.walkAll_eq] at hl
  obtain ⟨leaf, hleaf, hl⟩ := List.mem_flatMap.mp hl
  exact (h.placed leaf hleaf).walk l hl

theorem Fit.walkAll_inside {length : Nat} {ns : List Node} {leaves : List Leaf} (h : Fit length ns leaves) :
    ∀ l ∈ Leaf.walkAll leaves, ∃ n ∈ ns, n.span.contains l.range = true := by
  intro l hl
  rw [Leaf.walkAll_eq] at hl
  obtain ⟨leaf, hleaf, hl⟩ := List.mem_flatMap.mp hl
  obtain ⟨n, hn, hholds⟩ := h.inside leaf hleaf
  exact ⟨n, hn, Span.contains_trans hholds ((h.placed leaf hleaf).walk_inside l hl)⟩

/-- The nodes below what is made into leaves. -/
def Items.nodes (items : Items) : List Node := items.flatMap fun i => i.2.subtree

theorem Items.nodes_walk (ns : List Node) : (Items.walk ns).nodes = ns.flatMap subtree := by
  rw [walk, nodes, List.flatMap_map]

/-- A place that is told in a statement which ends at `stop` lies no earlier. -/
def Use.Late (stop : Nat) (u : Use) : Prop := u = .walked ∨ ∀ e, stop ≤ u.point e

/-- A node inside of `e` that is part of a statement which ends at `stop`, and no declaration. -/
structure Inline (e : Span) (stop : Nat) (u : Use) (n : Node) : Prop where
  nested : n.Nested
  lawful : n.Lawful
  inside : n.StatementsIn e
  declaration : n.isDeclaration = false
  late : u.Late stop

section
variable {length stop : Nat} {e : Span} {s : Scope} {u : Use} {n m t : Node} {items rest : Items}
variable {leaves : List Leaf}

theorem Items.nodes_single : Items.nodes [(u, n)] = n.subtree := by
  rw [nodes, List.flatMap_singleton]

theorem Items.nodes_append : (items ++ rest).nodes = items.nodes ++ rest.nodes := List.flatMap_append

theorem Items.nodes_left : items.nodes ⊆ (items ++ rest).nodes :=
  nodes_append ▸ List.subset_append_left _ _

theorem Items.nodes_right : rest.nodes ⊆ (items ++ rest).nodes :=
  nodes_append ▸ List.subset_append_right _ _

theorem Items.nodes_parts : (Items.walk n.parts).nodes ⊆ Items.nodes [(u, n)] := by
  rw [nodes_walk, nodes_single, subtree_eq]
  exact List.subset_cons_self _ _

theorem Items.nodes_statement {span : Span} {parts : List Node} :
    (Items.walk parts).nodes ⊆ Items.nodes [(.walked, .statement span parts)] :=
  nodes_parts (n := .statement span parts)

theorem Hands.nodes (h : Hands s u n items) : items.nodes ⊆ Items.nodes [(u, n)] := by
  intro m hm
  obtain ⟨i, hi, hm⟩ := List.mem_flatMap.mp hm
  rw [Items.nodes_single]
  exact h.of_parts (P := fun p => m ∈ p.subtree → m ∈ n.subtree) id
    (fun _ hp => mem_subtree_of_part hp) i hi hm

/-- A node hands on all of its parts when it is no statement, and itself otherwise. -/
theorem Hands.whole (h : Hands s u n items) (hn : n.shaped = true) :
    items.map Prod.snd = n.parts ∧ n.isStatement = false ∨ items.map Prod.snd = [n] := by
  cases h with
  | parts hstatement => exact .inl ⟨Items.nodes_map .walked n.parts, hstatement⟩
  | names | members => exact .inl ⟨Items.nodes_map _ _, rfl⟩
  | extensions | arguments => exact .inl ⟨by rw [List.map_cons, Items.nodes_map]; rfl, rfl⟩
  | property => exact .inl ⟨by rw [Items.walk, List.map_append, Items.nodes_map]; rfl, rfl⟩
  | method root span keyStart key keyParts f =>
    -- A key that is known has no parts that the function could overlap.
    have hkey : keyParts = [] := by simpa using (Bool.and_eq_true_iff.mp hn).1
    exact .inl ⟨by rw [hkey]; rfl, rfl⟩
  | element | callback | extended => exact .inr rfl
  | _ => exact .inl ⟨rfl, rfl⟩

/-- The statements of a node are statements of what it hands on. -/
theorem Hands.mem_nodes (h : Hands s u n items) (hn : n.shaped = true) (ht : t ∈ n.subtree)
    (hstatement : t.isStatement = true) : t ∈ items.nodes := by
  have hitem (hnode : ∃ p ∈ items.map Prod.snd, t ∈ p.subtree) : t ∈ items.nodes := by
    obtain ⟨p, hp, ht⟩ := hnode
    obtain ⟨i, hi, rfl⟩ := List.mem_map.mp hp
    exact List.mem_flatMap.mpr ⟨i, hi, ht⟩
  rcases h.whole hn with ⟨hwhole, hother⟩ | hwhole
  · rcases mem_subtree.mp ht with rfl | hpart
    · rw [hother] at hstatement
      cases hstatement
    · exact hitem (hwhole ▸ hpart)
  · exact hitem ⟨n, hwhole ▸ List.mem_singleton_self n, ht⟩

theorem Hands.late (h : Hands s u n items) (hend : s.statementEnd = some stop)
    (hdeclaration : n.isDeclaration = false) (hu : u.Late stop) : ∀ i ∈ items, i.1.Late stop := by
  intro i hi
  have hstatement (e : Nat) : s.endOr e = stop := by rw [Scope.endOr, hend, Option.getD_some]
  cases h.point i hi with
  | walked hv => exact .inl hv
  | kept hne hv =>
    refine .inr fun e => ?_
    rw [hv]
    exact hu.resolve_left hne e
  | statement hv =>
    exact .inr fun e => Nat.le_of_eq ((hv e).trans (hstatement n.span.stop)).symm
  | declaration hn _ =>
    rw [hn] at hdeclaration
    cases hdeclaration

theorem Hands.not_declaration (h : Hands s u n items) (hn : n.Lawful) (hdeclaration : n.isDeclaration = false) :
    ∀ i ∈ items, i.2.isDeclaration = false := by
  intro i hi
  rcases h.mem i hi with ⟨hpart, hstatement⟩ | ⟨hsame, -⟩
  · exact hn.declarations n n.self_mem_subtree hstatement i.2 hpart
  · rw [hsame]
    exact hdeclaration

theorem Hands.inline (h : Hands s u n items) (hend : s.statementEnd = some stop) (hn : Inline e stop u n) :
    ∀ i ∈ items, Inline e stop i.1 i.2 := fun i hi =>
  ⟨h.of_parts hn.nested hn.nested.part i hi, h.of_parts hn.lawful hn.lawful.part i hi,
    h.of_parts hn.inside (fun _ hp => hn.inside.part hp) i hi,
    h.not_declaration hn.lawful hn.declaration i hi, h.late hend hn.declaration hn.late i hi⟩

/-- The parts of a node that is no statement are part of the statement around it. -/
theorem Inline.of_walk (hn : n.Nested) (hlawful : n.Lawful) (hinside : n.StatementsIn e)
    (hstatement : n.isStatement = false) : ∀ i ∈ Items.walk n.parts, Inline e stop i.1 i.2 := by
  intro i hi
  obtain ⟨p, hp, rfl⟩ := List.mem_map.mp hi
  have hdeclaration := hlawful.declarations n n.self_mem_subtree hstatement p hp
  exact ⟨hn.part p hp, hlawful.part p hp, hinside.part hp, hdeclaration, .inl rfl⟩

/-- Every leaf is the leaf of a function below what it is made of. -/
theorem Made.function (h : Made s items leaves) :
    ∀ l ∈ Leaf.walkAll leaves, ∃ f ∈ items.nodes, f.functionSpan? = some l.range := by
  induction h with
  | idle => exact fun _ h => nomatch h
  | append _ _ ih ihrest =>
    intro l hl
    rcases Leaf.mem_walkAll_append.mp hl with hl | hl
    · obtain ⟨f, hf, hspan⟩ := ih l hl
      exact ⟨f, Items.nodes_left hf, hspan⟩
    · obtain ⟨f, hf, hspan⟩ := ihrest l hl
      exact ⟨f, Items.nodes_right hf, hspan⟩
  | hands hands _ ih =>
    intro l hl
    obtain ⟨f, hf, hspan⟩ := ih l hl
    exact ⟨f, hands.nodes hf, hspan⟩
  | statement _ ih =>
    intro l hl
    obtain ⟨f, hf, hspan⟩ := ih l hl
    exact ⟨f, Items.nodes_statement hf, hspan⟩
  | @leaf s b n params children hn _ ih =>
    intro l hl
    rcases Leaf.mem_walkAll_single.mp hl with rfl | hl
    · exact ⟨n, Items.nodes_single ▸ n.self_mem_subtree, by rw [hn, s.leafWith_range]⟩
    · obtain ⟨f, hf, hspan⟩ := ih l hl
      exact ⟨f, Items.nodes_parts hf, hspan⟩

/-- In a statement, text for a function that is no declaration is put behind the statement, unless a
    statement inside of it holds the function. -/
theorem Made.late (h : Made s items leaves) (hend : s.statementEnd = some stop)
    (hitems : ∀ i ∈ items, Inline e stop i.1 i.2) :
    ∀ l ∈ Leaf.walkAll leaves, stop ≤ l.injectionPoint ∨ Between items.nodes e l.range := by
  induction h with
  | idle => exact fun _ h => nomatch h
  | append _ _ ih ihrest =>
    obtain ⟨hitems, hrest⟩ := List.forall_mem_append.mp hitems
    intro l hl
    rcases Leaf.mem_walkAll_append.mp hl with hl | hl
    · exact (ih hend hitems l hl).imp_right (·.mono Items.nodes_left)
    · exact (ihrest hend hrest l hl).imp_right (·.mono Items.nodes_right)
  | hands hands _ ih =>
    have hn := hitems _ List.mem_cons_self
    intro l hl
    exact (ih hend (hands.inline hend hn) l hl).imp_right (·.mono hands.nodes)
  | @statement s span parts leaves hmade _ =>
    have hn := hitems _ List.mem_cons_self
    intro l hl
    obtain ⟨f, hf, hspan⟩ := hmade.function l hl
    have hbelow : f ∈ (Node.statement span parts).subtree := Items.nodes_single ▸ Items.nodes_statement hf
    rw [Items.nodes_single]
    have hholds := hn.nested.subtree_inside f hbelow
    rw [span_of_functionSpan? hspan] at hholds
    exact .inr ⟨_, self_mem_subtree _, hn.inside _ (self_mem_subtree _) rfl, hholds⟩
  | @leaf s b n params children hf _ ih =>
    have hn := hitems _ List.mem_cons_self
    have hfunction : n.functionSpan?.isSome = true := by rw [hf]; rfl
    intro l hl
    rcases Leaf.mem_walkAll_single.mp hl with rfl | hl
    · rw [s.leafWith_injectionPoint]
      exact .inl (hn.late.resolve_left nofun _)
    · have hparts : ∀ i ∈ Items.walk n.parts, Inline e stop i.1 i.2 :=
        .of_walk hn.nested hn.lawful hn.inside (isStatement_of_functionSpan? hfunction)
      exact (ih hend hparts l hl).imp_right (·.mono Items.nodes_parts)

/-- Text for a leaf in another is put no earlier than text for the other, unless a statement of the other
    holds the leaf. -/
theorem Made.enclosing (h : Made s items leaves) (hend : s.statementEnd = some stop)
    (hready : items.Ready stop s) (hlawful : ∀ i ∈ items, i.2.Lawful) :
    ∀ o ∈ Leaf.walkAll leaves, ∀ l ∈ Leaf.walkAll o.children,
      o.injectionPoint ≤ l.injectionPoint ∨ Between items.nodes o.range l.range := by
  induction h generalizing stop with
  | idle => exact fun _ h => nomatch h
  | append _ _ ih ihrest =>
    obtain ⟨hready, hready'⟩ := List.forall_mem_append.mp hready
    obtain ⟨hlawful, hlawful'⟩ := List.forall_mem_append.mp hlawful
    intro o ho l hl
    rcases Leaf.mem_walkAll_append.mp ho with ho | ho
    · exact (ih hend hready hlawful o ho l hl).imp_right (·.mono Items.nodes_left)
    · exact (ihrest hend hready' hlawful' o ho l hl).imp_right (·.mono Items.nodes_right)
  | hands hands _ ih =>
    obtain ⟨hn, hu⟩ := hready _ List.mem_cons_self
    have hlaw : Lawful _ := hlawful _ List.mem_cons_self
    intro o ho l hl
    exact (ih hend (hands.ready hn hu) (hands.of_parts hlaw hlaw.part) o ho l hl).imp_right (·.mono hands.nodes)
  | statement _ ih =>
    obtain ⟨hn, -⟩ := hready _ List.mem_cons_self
    have hlaw : Lawful _ := hlawful _ List.mem_cons_self
    intro o ho l hl
    refine (ih rfl (.statement hn.nested (Nat.le_refl _)) (Items.forall_walk hlaw.part) o ho l hl).imp_right ?_
    exact (·.mono Items.nodes_statement)
  | @leaf s b n params children hf hmade ih =>
    obtain ⟨hn, hb⟩ := hready _ List.mem_cons_self
    have hlaw : Lawful _ := hlawful _ List.mem_cons_self
    have hfunction : n.functionSpan?.isSome = true := by rw [hf]; rfl
    intro o ho l hl
    rcases Leaf.mem_walkAll_single.mp ho with rfl | ho
    · have hparts : ∀ i ∈ Items.walk n.parts, Inline n.span stop i.1 i.2 :=
        .of_walk hn.nested hlaw (hlaw.function hfunction) (isStatement_of_functionSpan? hfunction)
      rw [s.leafWith_range, s.leafWith_injectionPoint]
      exact (hmade.late hend hparts l hl).imp (Nat.le_trans hb.2) (·.mono Items.nodes_parts)
    · exact (ih hend (.inner hn _) (Items.forall_walk hlaw.part) o ho l hl).imp_right (·.mono Items.nodes_parts)

/-- Leaves take some room. -/
theorem Made.nonempty (h : Made s items leaves) (hlawful : ∀ i ∈ items, i.2.Lawful) :
    ∀ l ∈ Leaf.walkAll leaves, l.range.start < l.range.stop := by
  intro l hl
  obtain ⟨f, hf, hspan⟩ := h.function l hl
  obtain ⟨i, hi, hf⟩ := List.mem_flatMap.mp hf
  have hroom := ((hlawful i hi).functions f hf (by rw [hspan]; rfl)).1
  rwa [span_of_functionSpan? hspan] at hroom

/-- No statement of nodes beside what a leaf is made of holds the leaf. -/
theorem Made.not_beside (h : Made s items leaves) (hready : items.Ready length s)
    (hlawful : ∀ i ∈ items, i.2.Lawful) (hapart : Apart items.seen) (hrest : rest.Ready length s)
    (hcross : ∀ m ∈ items.seen, ∀ m' ∈ rest.seen, m.span.overlaps m'.span = false)
    (ht : t ∈ rest.nodes) (hstatement : t.isStatement = true) :
    ∀ l ∈ Leaf.walkAll leaves, ¬ t.span.contains l.range = true := by
  intro l hl hholds
  obtain ⟨m, hm, hinside⟩ := (h.fits hready hapart).walkAll_inside l hl
  obtain ⟨i, hi, ht⟩ := List.mem_flatMap.mp ht
  obtain ⟨m', hm', ht⟩ := i.1.mem_seen_subtree ht hstatement
  have hbeside : l.range.overlaps t.span = false :=
    Span.overlaps_of_contains (hcross m hm m' (List.mem_flatMap.mpr ⟨i, hi, hm'⟩)) hinside
      ((i.1.seen_nested (hrest i hi).1.nested m' hm').subtree_inside t ht)
  have hroom := h.nonempty hlawful l hl
  rw [Span.overlaps_eq_false_iff] at hbeside
  rw [Span.contains_iff] at hholds
  omega

/-- Text for a leaf is put no later than the end of any statement that holds the leaf. -/
theorem Made.within (h : Made s items leaves) (hready : items.Ready length s)
    (hlawful : ∀ i ∈ items, i.2.Lawful) (hapart : Apart items.seen) :
    ∀ l ∈ Leaf.walkAll leaves, ∀ t ∈ items.nodes, t.isStatement = true →
      t.span.contains l.range = true → l.injectionPoint ≤ t.span.stop := by
  induction h with
  | idle => exact fun _ h => nomatch h
  | append hmade hmore ih ihrest =>
    rw [Items.seen, List.flatMap_append] at hapart
    obtain ⟨hseen, hseen', hcross⟩ := List.pairwise_append.mp hapart
    obtain ⟨hready, hready'⟩ := List.forall_mem_append.mp hready
    obtain ⟨hlawful, hlawful'⟩ := List.forall_mem_append.mp hlawful
    intro l hl t ht hstatement hholds
    rw [Items.nodes_append] at ht
    rcases Leaf.mem_walkAll_append.mp hl with hl | hl <;> rcases List.mem_append.mp ht with ht | ht
    · exact ih hready hlawful hseen l hl t ht hstatement hholds
    · exact absurd hholds (hmade.not_beside hready hlawful hseen hready' hcross ht hstatement l hl)
    · refine absurd hholds (hmore.not_beside hready' hlawful' hseen' hready ?_ ht hstatement l hl)
      exact fun m hm m' hm' => Span.overlaps_comm m'.span m.span ▸ hcross m' hm' m hm
    · exact ihrest hready' hlawful' hseen' l hl t ht hstatement hholds
  | hands hands _ ih =>
    obtain ⟨hn, hu⟩ := hready _ List.mem_cons_self
    have hlaw : Lawful _ := hlawful _ List.mem_cons_self
    intro l hl t ht hstatement
    have ht := hands.mem_nodes hlaw.shaped.self (Items.nodes_single ▸ ht) hstatement
    exact ih (hands.ready hn hu) (hands.of_parts hlaw hlaw.part) (hands.seen_apart hn.nested) l hl t ht hstatement
  | @statement s span parts leaves hmade ih =>
    obtain ⟨hn, -⟩ := hready _ List.mem_cons_self
    have hlaw : Lawful _ := hlawful _ List.mem_cons_self
    have hseen := Items.seen_walk_apart hn.nested
    intro l hl t ht hstatement hholds
    rw [Items.nodes_single] at ht
    rcases mem_subtree.mp ht with rfl | hpart
    · -- Whatever is made in a statement is placed in a text that ends with the statement.
      exact ((hmade.fits (.statement hn.nested (Nat.le_refl _)) hseen).walkAll_placed l hl).within
    · have hlength : span.stop ≤ length := Nat.le_trans hn.reaches.1 hn.reaches.2
      refine ih (.statement hn.nested hlength) (Items.forall_walk hlaw.part) hseen l hl t ?_ hstatement hholds
      exact Items.nodes_walk parts ▸ List.mem_flatMap.mpr hpart
  | @leaf s b n params children hf _ ih =>
    obtain ⟨hn, -⟩ := hready _ List.mem_cons_self
    have hlaw : n.Lawful := hlawful _ List.mem_cons_self
    have hfunction : n.functionSpan?.isSome = true := by rw [hf]; rfl
    intro l hl t ht hstatement hholds
    rw [Items.nodes_single] at ht
    rcases Leaf.mem_walkAll_single.mp hl with rfl | hl
    · -- No statement inside of a function holds the function.
      obtain ⟨-, hstart, -⟩ := hlaw.function hfunction t ht hstatement
      rw [s.leafWith_range, Span.contains_iff] at hholds
      omega
    · rcases mem_subtree.mp ht with rfl | hpart
      · rw [isStatement_of_functionSpan? hfunction] at hstatement
        cases hstatement
      · refine ih (.inner hn _) (Items.forall_walk hlaw.part) (Items.seen_walk_apart hn.nested) l hl t ?_
          hstatement hholds
        exact Items.nodes_walk n.parts ▸ List.mem_flatMap.mpr hpart

/-- What the statements of a script make is made inside of one of them. -/
theorem Made.of_statements (h : Made s items leaves)
    (hitems : ∀ i ∈ items, i.1 = .walked ∧ i.2.isStatement = true) :
    ∀ l ∈ Leaf.walkAll leaves, ∃ span parts inside, (Use.walked, .statement span parts) ∈ items ∧
      Made { s with statementEnd := some span.stop } (Items.walk parts) inside ∧ l ∈ Leaf.walkAll inside := by
  induction h with
  | idle => exact fun _ h => nomatch h
  | append _ _ ih ihrest =>
    obtain ⟨hitems, hrest⟩ := List.forall_mem_append.mp hitems
    intro l hl
    rcases Leaf.mem_walkAll_append.mp hl with hl | hl
    · obtain ⟨span, parts, inside, hmem, hinside⟩ := ih hitems l hl
      exact ⟨span, parts, inside, List.mem_append_left _ hmem, hinside⟩
    · obtain ⟨span, parts, inside, hmem, hinside⟩ := ihrest hrest l hl
      exact ⟨span, parts, inside, List.mem_append_right _ hmem, hinside⟩
  | hands hands _ _ =>
    obtain ⟨rfl, hstatement⟩ := hitems _ List.mem_cons_self
    cases hands with
    | parts hother =>
      rw [hother] at hstatement
      cases hstatement
    | element helement => cases helement
    | _ => cases hstatement
  | statement hmade _ => exact fun l hl => ⟨_, _, _, List.mem_cons_self, hmade, hl⟩
  | leaf _ _ _ => cases (hitems _ List.mem_cons_self).1

end

/-- Text for a function in another function is put inside of the other one, and in front of the text for
    the other, exactly when a statement of the other holds the function. The text of the script is not
    looked at, and functions without a name may be indexed or not. -/
theorem Discovery.ofProgram_enclosure {program : Program} {file source : String} {withAnonymous : Bool}
    {found : Discovery} (hnested : program.Nested (Text.width source.toList)) (hlawful : program.Lawful)
    (hfound : Discovery.ofProgram program file source withAnonymous = .ok found) :
    ∀ o ∈ Leaf.walkAll found.root.children, ∀ l ∈ Leaf.walkAll o.children,
      (o.range.start < l.injectionPoint ∧ l.injectionPoint < o.range.stop ↔
        Between program.nodes o.range l.range) ∧
      (l.injectionPoint < o.injectionPoint ↔ Between program.nodes o.range l.range) := by
  obtain ⟨children, hmade, hroot⟩ := ofProgram_made hfound
  have hready := hnested.ready (s := ⟨file, source.toList, withAnonymous, Path.ofScript file, none⟩) rfl
  have hlaw := Items.forall_walk (P := Node.Lawful) hlawful.trees
  have hfits := hmade.fits hready hnested.seen_apart
  have hstatements (i : Use × Node) (hi : i ∈ Items.walk program.body) :
      i.1 = .walked ∧ i.2.isStatement = true := by
    obtain ⟨n, hn, rfl⟩ := List.mem_map.mp hi
    exact ⟨rfl, hlawful.statements n hn⟩
  rw [hroot]
  intro o ho l hl
  have hlo : l ∈ Leaf.walkAll children := Leaf.mem_walkAll_trans ho hl
  have hinside := (Span.contains_iff _ _).mp ((hfits.walkAll_placed o ho).walkAll_inside l hl)
  have hbehind := (hfits.walkAll_placed o ho).behind
  have hbehind' := (hfits.walkAll_placed l hlo).behind
  have hroom := hmade.nonempty hlaw l hlo
  have hbefore (h : Between program.nodes o.range l.range) : l.injectionPoint < o.range.stop := by
    obtain ⟨t, ht, ⟨hstatement, -, hstop⟩, hholds⟩ := h
    have ht : t ∈ (Items.walk program.body).nodes := Items.nodes_walk program.body ▸ ht
    have hwithin := hmade.within hready hlaw hnested.seen_apart l hlo t ht hstatement hholds
    omega
  have hafter : o.injectionPoint ≤ l.injectionPoint ∨ Between program.nodes o.range l.range := by
    obtain ⟨span, parts, inside, hmem, hinner, ho⟩ := hmade.of_statements hstatements o ho
    obtain ⟨n, hn, hsame⟩ := List.mem_map.mp hmem
    obtain rfl : n = .statement span parts := congrArg Prod.snd hsame
    have hlaw := (hlawful.trees _ hn).part
    refine (hinner.enclosing rfl (.statement (hnested.trees _ hn) (Nat.le_refl _)) (Items.forall_walk hlaw)
      o ho l hl).imp_right (·.mono fun t ht => ?_)
    rw [Items.nodes_walk] at ht
    obtain ⟨p, hp, ht⟩ := List.mem_flatMap.mp ht
    exact List.mem_flatMap.mpr ⟨_, hn, mem_subtree_of_part hp ht⟩
  refine ⟨⟨fun hwithin => hafter.resolve_left ?_, fun h => ⟨?_, hbefore h⟩⟩,
    ⟨fun hbefore => hafter.resolve_left (Nat.not_le.mpr hbefore), fun h => ?_⟩⟩
  · omega
  · omega
  · exact Nat.lt_of_lt_of_le (hbefore h) hbehind

namespace Sample

/-- The text `function outer(cb = run = function () {}) { step = function () {}; }`. -/
def outerSource : String := "function outer(cb = run = function () \x7b\x7d) \x7b step = function () \x7b\x7d; \x7d"

/-- The function that a parameter has when none is given. -/
def runFunction : Node := .function ⟨26, 40⟩ false [] []

def runAssignment : Node := .assign ⟨20, 40⟩ true (.name ⟨20, 23⟩ "run") runFunction

def outerParameter : Node := .plain .pattern ⟨15, 40⟩ [.name ⟨15, 17⟩ "cb", runAssignment]

/-- The function that a statement of the body binds. -/
def stepFunction : Node := .function ⟨51, 65⟩ false [] []

def stepAssignment : Node := .assign ⟨44, 65⟩ true (.name ⟨44, 48⟩ "step") stepFunction

def stepStatement : Node := .statement ⟨44, 66⟩ [stepAssignment]

def outerFunction : Node := .function ⟨0, 68⟩ false [outerParameter] [stepStatement]

def outerDeclaration : Node := .functionDecl ⟨0, 68⟩ "outer" outerFunction

def outerStatement : Node := .statement ⟨0, 68⟩ [outerDeclaration]

def outerProgram : Program := ⟨[outerStatement]⟩

theorem runFunction_subtree : runFunction.subtree = [runFunction] := by
  simp [runFunction, subtree_eq, parts]

theorem stepFunction_subtree : stepFunction.subtree = [stepFunction] := by
  simp [stepFunction, subtree_eq, parts]

/-- The nodes of the function around the others. -/
def outerNodes : List Node :=
  [outerFunction, outerParameter, .name ⟨15, 17⟩ "cb", runAssignment, .name ⟨20, 23⟩ "run", runFunction,
    stepStatement, stepAssignment, .name ⟨44, 48⟩ "step", stepFunction]

theorem outerFunction_subtree : outerFunction.subtree = outerNodes := by
  simp [outerNodes, outerFunction, outerParameter, runAssignment, stepStatement, stepAssignment, runFunction,
    stepFunction, subtree_eq, parts]

theorem outerStatement_subtree : outerStatement.subtree = outerStatement :: outerDeclaration :: outerNodes := by
  simp [outerStatement, outerDeclaration, subtree_eq (.statement ..), subtree_eq (.functionDecl ..), parts,
    outerFunction_subtree]

theorem outerProgram_nested : outerProgram.Nested 68 where
  inside := by decide
  apart := by decide
  trees n hn := by
    refine .of_subtree ?_
    rw [List.mem_singleton.mp hn, outerStatement_subtree]
    decide

theorem outerStatement_functions : ∀ f ∈ outerStatement.subtree, f.functionSpan?.isSome = true →
    f.span.start < f.span.stop ∧ f.StatementsIn f.span := by
  have houter : outerFunction.StatementsIn ⟨0, 68⟩ := by
    rw [StatementsIn, outerFunction_subtree]
    decide
  have hrun : runFunction.StatementsIn ⟨26, 40⟩ := by
    rw [StatementsIn, runFunction_subtree]
    decide
  have hstep : stepFunction.StatementsIn ⟨51, 65⟩ := by
    rw [StatementsIn, stepFunction_subtree]
    decide
  rw [outerStatement_subtree]
  simp only [outerNodes, List.forall_mem_cons]
  exact ⟨nofun, nofun, fun _ => ⟨by decide, houter⟩, nofun, nofun, nofun, nofun, fun _ => ⟨by decide, hrun⟩,
    nofun, nofun, nofun, fun _ => ⟨by decide, hstep⟩, nofun⟩

theorem outerProgram_lawful : outerProgram.Lawful where
  statements := by decide
  trees n hn := by
    rw [List.mem_singleton.mp hn]
    refine ⟨?_, ?_, outerStatement_functions⟩
    · rw [Shaped, outerStatement_subtree]
      decide
    · rw [outerStatement_subtree]
      decide

end Sample

/-- Of the two functions inside of another one, text for the one in the body is put inside of that body. No
    statement of the other function holds the one that a parameter has. -/
theorem Discovery.ofProgram_enclosure_body :
    ∃ found, Discovery.ofProgram Sample.outerProgram "app.js" Sample.outerSource true = .ok found ∧
      ∃ outer ∈ Leaf.walkAll found.root.children, ∃ run ∈ Leaf.walkAll outer.children,
      ∃ step ∈ Leaf.walkAll outer.children,
        ¬ Between Sample.outerProgram.nodes outer.range run.range ∧
        outer.range.start < step.injectionPoint ∧ step.injectionPoint < outer.range.stop := by
  refine ⟨_, rfl, _, List.mem_cons_self, _, List.mem_cons_self, _,
    List.mem_cons_of_mem _ List.mem_cons_self, ?_⟩
  have henclosure := @ofProgram_enclosure Sample.outerProgram "app.js" Sample.outerSource true _
    Sample.outerProgram_nested Sample.outerProgram_lawful rfl _ List.mem_cons_self
  have hrun := (henclosure _ List.mem_cons_self).2
  have hstep := (henclosure _ (List.mem_cons_of_mem _ List.mem_cons_self)).1
  refine ⟨fun hheld => ?_, hstep.mpr ⟨Sample.stepStatement, ?_, by decide, by decide⟩⟩
  · exact absurd (hrun.mpr hheld) (by decide)
  · refine List.mem_flatMap.mpr ⟨_, List.mem_cons_self, ?_⟩
    rw [Sample.outerStatement_subtree]
    simp [Sample.outerNodes]

/-- Text for a function that a parameter has is put behind the function of the parameter, whether functions
    without a name are indexed or not. -/
theorem Discovery.ofProgram_enclosure_parameter :
    Sample.outerProgram.Nested (Text.width Sample.outerSource.toList) ∧ ∀ withAnonymous, ∃ found,
      Discovery.ofProgram Sample.outerProgram "app.js" Sample.outerSource withAnonymous = .ok found ∧
      ∃ outer ∈ Leaf.walkAll found.root.children, ∃ run ∈ Leaf.walkAll outer.children,
        outer.path = "/app.js/outer" ∧ run.path = "/app.js/outer/run" ∧
        ¬ (outer.range.start < run.injectionPoint ∧ run.injectionPoint < outer.range.stop) ∧
        ¬ run.injectionPoint < outer.injectionPoint := by
  refine ⟨Sample.outerProgram_nested, fun withAnonymous => ?_⟩
  cases withAnonymous <;>
  · refine ⟨_, rfl, _, List.mem_cons_self, _, List.mem_cons_self, ?_⟩
    decide

end PageProbe
