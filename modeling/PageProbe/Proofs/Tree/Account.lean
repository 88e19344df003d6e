import PageProbe.Proofs.Tree.Claimed
import PageProbe.Proofs.Tree.Usage

namespace PageProbe

open Script Script.Node

namespace Leaf

mutual
/-- The ranges of a leaf and of all leaves below it, each with the ranges around it, innermost first. -/
def places (around : List Span) : Leaf → List (Span × List Span)
  | { range := range, children := children, .. } => (range, around) :: placesAll (range :: around) children

def placesAll (around : List Span) : List Leaf → List (Span × List Span)
  | [] => []
  | c :: cs => places around c ++ placesAll around cs
end

theorem placesAll_eq (around : List Span) (leaves : List Leaf) :
    placesAll around leaves = leaves.flatMap (places around) := by
  induction leaves with
  | nil => rfl
  | cons leaf rest ih => rw [placesAll, ih, List.flatMap_cons]

theorem places_eq (around : List Span) (leaf : Leaf) :
    leaf.places around = (leaf.range, around) :: leaf.children.flatMap (places (leaf.range :: around)) := by
  cases leaf
  rw [places, placesAll_eq]

theorem places_ranges (leaf : Leaf) :
    ∀ around, (leaf.places around).map Prod.fst = leaf.walk.map (·.range) := by
  induction leaf using induction_children with
  | step leaf ih =>
    intro around
    rw [places_eq, walk_eq, List.map_cons, List.map_cons, List.map_flatMap, List.map_flatMap]
    congr 1
    exact List.flatMap_congr fun c hc => ih c hc _

end Leaf

/-- What a report is about. -/
def Diagnostic.subject (d : Diagnostic) : DiagnosticKind × Span := (d.kind, d.range)

/-- A success brings something with a property, and adds reports about some subjects in any order. -/
def Indexer.Tells (x : Indexer α) (Q : α → Prop) (subjects : List (DiagnosticKind × Span)) : Prop :=
  ∀ (before after : Tally) (a : α), x.run before = .ok (a, after) →
    Q a ∧ ∃ more, after.diagnostics = before.diagnostics ++ more ∧
      (more.map Diagnostic.subject).Perm subjects

namespace Indexer.Tells

variable {α β : Type} {P : α → Prop} {subjects more : List (DiagnosticKind × Span)}

theorem pure {a : α} (h : P a) : Indexer.Tells (pure a) P [] := by
  intro before after b hb
  cases hb
  exact ⟨h, [], (List.append_nil _).symm, .nil⟩

theorem throw (e : IndexError) : Indexer.Tells (throw e) P subjects := by
  intro before after a ha
  cases ha

theorem bind {x : Indexer α} {f : α → Indexer β} {Q : β → Prop} (hx : x.Tells P subjects)
    (hf : ∀ a, P a → (f a).Tells Q more) : Indexer.Tells (x >>= f) Q (subjects ++ more) := by
  intro before after b hb
  rw [StateT.run_bind] at hb
  cases hrun : x.run before with
  | error e =>
    rw [hrun] at hb
    cases hb
  | ok result =>
    obtain ⟨a, between⟩ := result
    rw [hrun] at hb
    obtain ⟨ha, first, hfirst, hsubjects⟩ := hx before between a hrun
    obtain ⟨hb, second, hsecond, hmore⟩ := hf a ha between after b hb
    refine ⟨hb, first ++ second, ?_, ?_⟩
    · rw [hsecond, hfirst, List.append_assoc]
    · rw [List.map_append]
      exact hsubjects.append hmore

theorem imp {x : Indexer α} {Q : α → Prop} (hx : x.Tells P subjects) (h : ∀ a, P a → Q a)
    (hperm : subjects.Perm more) : x.Tells Q more := by
  intro before after a ha
  obtain ⟨hp, added, hadded, hsubjects⟩ := hx before after a ha
  exact ⟨h a hp, added, hadded, hsubjects.trans hperm⟩

theorem report (s : Scope) (kind : DiagnosticKind) (severity : Severity) (range : Span)
    (message : String) : (s.report kind severity range message).Tells (fun _ => True) [(kind, range)] := by
  intro before after a ha
  cases ha
  exact ⟨trivial, _, rfl, .refl _⟩

theorem nextAnonymous : Indexer.Tells nextAnonymous (fun _ => True) [] := by
  intro before after a ha
  cases ha
  exact ⟨trivial, [], (List.append_nil _).symm, .nil⟩

end Indexer.Tells

/-- A success brings the leaves of some functions and the reports about the others. -/
def Indexer.Accounts (x : Indexer (List Leaf)) (withAnonymous : Bool) (around : List Span)
    (fs : List HeldFunction) : Prop :=
  x.Tells (fun leaves => leaves.flatMap (Leaf.places around) = HeldFunction.places withAnonymous fs)
    (HeldFunction.reports fs)

namespace Indexer.Accounts

variable {withAnonymous : Bool} {around : List Span} {fs gs : List HeldFunction} {x y : Indexer (List Leaf)}

theorem nil : Accounts (pure []) withAnonymous around [] := .pure rfl

theorem append (hx : x.Accounts withAnonymous around fs) (hy : y.Accounts withAnonymous around gs) :
    Accounts (do return (← x) ++ (← y)) withAnonymous around (fs ++ gs) := by
  have hboth := hx.bind fun leaves hleaves => hy.bind fun more hmore =>
    Tells.pure (P := fun all => all.flatMap (Leaf.places around) =
      HeldFunction.places withAnonymous (fs ++ gs)) (a := leaves ++ more) (by
        rw [List.flatMap_append, hleaves, hmore, HeldFunction.places_append])
  refine hboth.imp (fun _ h => h) ?_
  rw [List.append_nil, HeldFunction.reports_append]

/-- Functions may be replaced by others that are indexed in the same places and bring the same reports. -/
theorem imp (hx : x.Accounts withAnonymous around fs)
    (hplaces : HeldFunction.places withAnonymous fs = HeldFunction.places withAnonymous gs)
    (hreports : (HeldFunction.reports fs).Perm (HeldFunction.reports gs)) :
    x.Accounts withAnonymous around gs :=
  Tells.imp hx (fun _ h => h.trans hplaces) hreports

/-- In an idle role that asks for no report a node counts as in any other. -/
theorem idle {role : Role} {n : Node}
    (hx : x.Accounts withAnonymous around (n.held withAnonymous around .other))
    (hidle : role.Idle withAnonymous n) (hreport : role.report? = none) :
    x.Accounts withAnonymous around (n.held withAnonymous around role) := by
  obtain ⟨hplaces, hreports⟩ := held_idle around n hidle
  refine hx.imp hplaces.symm ?_
  rw [hreports, hreport]
  split <;> exact .refl _

theorem idleAll {role : Role} {ns : List Node}
    (hx : x.Accounts withAnonymous around (ns.flatMap (held withAnonymous around .other)))
    (hidle : ∀ n ∈ ns, role.Idle withAnonymous n.unspread) (hreport : role.report? = none) :
    x.Accounts withAnonymous around (ns.flatMap fun n => n.unspread.held withAnonymous around role) := by
  have hheld (n : Node) (hn : n ∈ ns) := held_idle around n.unspread (hidle n hn)
  simp only [held_unspread, hreport, Option.toList_none, ite_self, List.nil_append] at hheld
  refine hx.imp ?_ (.of_eq ?_)
  · rw [HeldFunction.places_flatMap, HeldFunction.places_flatMap]
    exact List.flatMap_congr fun n hn => (hheld n hn).1.symm
  · rw [HeldFunction.reports_flatMap, HeldFunction.reports_flatMap]
    exact List.flatMap_congr fun n hn => (hheld n hn).2.symm

/-- The value of a member that is idle beside the key. -/
theorem idleValue {role : Role} {keyParts : List Node} {value : Node}
    (hx : x.Accounts withAnonymous around ((keyParts ++ [value]).flatMap (held withAnonymous around .other)))
    (hidle : role.Idle withAnonymous value) (hreport : role.report? = none) :
    x.Accounts withAnonymous around ((keyParts.map (Role.other, ·) ++ [(role, value)]).flatMap
      fun p => p.2.held withAnonymous around p.1) := by
  obtain ⟨hplaces, hreports⟩ := held_idle around value hidle
  simp only [hreport, Option.toList_none, ite_self, List.nil_append] at hreports
  refine hx.imp ?_ (.of_eq ?_) <;>
  simp only [List.flatMap_append, List.flatMap_map, List.flatMap_singleton, HeldFunction.places_append,
    HeldFunction.reports_append, hplaces, hreports]

/-- A node that holds itself in no way of its own. -/
theorem passed {n : Node} {held : List (Role × Node)}
    (hx : x.Accounts withAnonymous around (n.held withAnonymous around .other)) (hheld : held = [(.other, n)]) :
    x.Accounts withAnonymous around (held.flatMap fun p => p.2.held withAnonymous around p.1) := by
  rwa [hheld, List.flatMap_singleton]

/-- A function that is assigned to something without a name is reported, and anything else is not. -/
theorem unnamed {s : Scope} {severity : Severity} {message : String} {span : Span}
    {fs : List HeldFunction} {value : Node}
    (hx : x.Accounts withAnonymous around (fs ++ value.held withAnonymous around .other)) :
    Accounts (do
        if value.isFunction then s.report .unsupportedAssignmentTarget severity span message
        x) withAnonymous around (fs ++ value.held withAnonymous around (.assigned false span)) := by
  have hidle : (Role.assigned false span).Idle withAnonymous value := .of_role (fun _ => rfl) rfl
  obtain ⟨hplaces, hreports⟩ := held_idle around value hidle
  split
  · rename_i hfunction
    rw [if_pos hfunction] at hreports
    refine ((Tells.report s _ _ _ _).bind fun _ _ => hx).imp (fun _ h => ?_) ?_
    · rw [h, HeldFunction.places_append, HeldFunction.places_append, hplaces]
    · rw [HeldFunction.reports_append, HeldFunction.reports_append, hreports, ← List.append_assoc,
        ← List.append_assoc]
      exact List.perm_append_comm.append_right _
  · rename_i hfunction
    rw [if_neg hfunction] at hreports
    refine hx.imp ?_ (.of_eq ?_)
    · rw [HeldFunction.places_append, HeldFunction.places_append, hplaces]
    · rw [HeldFunction.reports_append, HeldFunction.reports_append, hreports, List.nil_append]

/-- The leaf of a function, with what its parameters and its body bring. -/
theorem enclose {s : Scope} {bound : Bound} {role : Role} {n : Node} {f : HeldFunction}
    {params : List Node} {inside : Scope → Indexer (List Leaf)}
    (hf : n.function? role around = some f) (hindexed : f.indexed withAnonymous = true)
    (hinside : ∀ inner : Scope, inner.withAnonymous = s.withAnonymous →
      (inside inner).Accounts withAnonymous (f.range :: around)
        (n.parts.flatMap (held withAnonymous (f.range :: around) .other))) :
    (s.enclose bound f.range params inside).Accounts withAnonymous around
      (n.held withAnonymous around role) := by
  let leaf := s.leaf bound f.range params
  have hrange : leaf.range = f.range := by cases bound <;> rfl
  have hplace : f.place = (f.range, around) := by
    rw [HeldFunction.place, around_of_function? hf]
  have hheld : n.held withAnonymous around role =
      f :: n.parts.flatMap (held withAnonymous (f.range :: around) .other) := by
    rw [held_of_some hf, hindexed]
    rfl
  have hleaf (children : List Leaf)
      (hchildren : children.flatMap (Leaf.places (f.range :: around)) = HeldFunction.places withAnonymous
        (n.parts.flatMap (held withAnonymous (f.range :: around) .other))) :
      [{ leaf with children := children }].flatMap (Leaf.places around) =
        HeldFunction.places withAnonymous (n.held withAnonymous around role) := by
    rw [List.flatMap_singleton, Leaf.places_eq, hheld, HeldFunction.places_cons hindexed, hplace, hrange,
      hchildren]
  have hbrought := (hinside { s with path := leaf.path } rfl).bind fun children hchildren =>
    Tells.pure (P := fun leaves : List Leaf => leaves.flatMap (Leaf.places around) =
      HeldFunction.places withAnonymous (n.held withAnonymous around role)) (hleaf children hchildren)
  refine hbrought.imp (fun _ h => h) ?_
  rw [List.append_nil, hheld, HeldFunction.reports_cons hindexed]

end Indexer.Accounts

theorem reportMembers_tells (s : Scope) (ms : List Node) :
    (reportMembers s ms).Tells (fun _ => True) (ms.filterMap memberSubject?) := by
  induction ms with
  | nil => exact .pure trivial
  | cons m rest hrest =>
    cases hm : reportedMember? m with
    | none =>
      have hsubject : m.memberSubject? = none := by rw [memberSubject?, hm]; rfl
      rw [List.filterMap_cons_none hsubject]
      simpa only [reportMembers, hm, pure_bind] using hrest
    | some reported =>
      have hsubject : m.memberSubject? = some (.unresolvedObjectRoot, reported.1) := by
        rw [memberSubject?, hm]; rfl
      rw [List.filterMap_cons_some hsubject]
      simp only [reportMembers, hm]
      exact (Indexer.Tells.report s _ _ _ _).bind fun _ _ => hrest

end PageProbe
