import PageProbe.Proofs.Tree.Roles

namespace PageProbe

open Script Script.Node

/-- A role that does not make a node indexed: a function in it is left alone, and the members of an
    object are not named. -/
structure Role.Idle (withAnonymous : Bool) (role : Role) (n : Node) : Prop where
  function : ∀ around f, n.unparen.function? role around = some f → f.indexed withAnonymous = false
  object : n.unparen.isObject = true → role.roots = false

namespace Role.Idle

variable {withAnonymous : Bool} {role : Role} {n : Node}

theorem function?_indexed {n : Node} {around : List Span} {f : HeldFunction}
    (hindexes : ∀ named, role.indexes withAnonymous named = false) (hf : n.function? role around = some f) :
    f.indexed withAnonymous = false := by
  cases n with
  | function | arrow =>
    cases hf
    exact hindexes _
  | _ => cases hf

/-- Some roles index nothing. -/
theorem of_role (hindexes : ∀ named, role.indexes withAnonymous named = false)
    (hroots : role.roots = false) : role.Idle withAnonymous n :=
  ⟨fun _ _ hf => function?_indexed hindexes hf, fun _ => hroots⟩

/-- What is neither a function nor an object is never indexed. -/
theorem of_node (h : ¬(n.isFunction || n.unparen.isObject) = true) : role.Idle withAnonymous n where
  function around f hf := by
    induction n using unparen.induct with
    | case1 _ inner ih => exact ih h hf
    | case2 n hn =>
      cases n with
      | function => exact absurd rfl h
      | arrow => exact absurd rfl h
      | paren _ inner => exact absurd rfl (hn _ inner)
      | _ => cases hf
  object hobject := absurd (Bool.or_eq_true_iff.mpr (.inr hobject)) h

end Role.Idle

namespace Script.Node

variable {withAnonymous : Bool} {around : List Span} {role : Role}

/-- A function that is left alone counts only for what is reported about it. -/
theorem held_cons_idle {f : HeldFunction} (hleft : f.indexed withAnonymous = false)
    (inside : List HeldFunction) :
    HeldFunction.places withAnonymous (f :: inside) =
      HeldFunction.places withAnonymous ({ f with role := .other } :: inside) ∧
    HeldFunction.reports (f :: inside) =
      f.role.report?.toList ++ HeldFunction.reports ({ f with role := .other } :: inside) := by
  refine ⟨?_, ?_⟩
  · rw [HeldFunction.places, List.filter_cons_of_neg (by simp [hleft])]
    rfl
  · rw [HeldFunction.reports, List.filterMap_cons]
    cases f.role.report? <;> rfl

variable (around) in
/-- In an idle role a function is at most reported. -/
theorem held_idle (n : Node) (hidle : role.Idle withAnonymous n) :
    HeldFunction.places withAnonymous (n.held withAnonymous around role) =
      HeldFunction.places withAnonymous (n.held withAnonymous around .other) ∧
    HeldFunction.reports (n.held withAnonymous around role) =
      (if n.isFunction then role.report?.toList else []) ++
        HeldFunction.reports (n.held withAnonymous around .other) := by
  induction n using unparen.induct with
  | case1 _ inner ih =>
    rw [held_paren, held_paren]
    exact ih ⟨hidle.function, hidle.object⟩
  | case2 n hn =>
    cases n with
    | function span named params body =>
      have hleft := hidle.function around ⟨role, named, span, around⟩ rfl
      rw [held_of_some rfl, held_of_some (f := ⟨.other, named, span, around⟩) rfl, hleft]
      exact held_cons_idle hleft _
    | arrow span params body =>
      have hleft := hidle.function around ⟨role, false, span, around⟩ rfl
      rw [held_of_some rfl, held_of_some (f := ⟨.other, false, span, around⟩) rfl, hleft]
      exact held_cons_idle hleft _
    | assign _ isPlain =>
      rw [held_of_none rfl, held_of_none rfl]
      cases isPlain <;> exact ⟨rfl, rfl⟩
    | object span members =>
      rw [held_object, held_object, hidle.object rfl]
      exact ⟨rfl, rfl⟩
    | paren _ inner => exact absurd rfl (hn _ inner)
    | _ =>
      rw [held_of_none rfl, held_of_none rfl]
      exact ⟨rfl, rfl⟩

end Script.Node

/-- A function or an object that is bound, in parentheses or behind further assignments, in a role that
    indexes it. -/
inductive Claimed (withAnonymous : Bool) (bound : Bound) : Role → Node → Prop where
  | paren {role : Role} {span : Span} {inner : Node} (h : Claimed withAnonymous bound role inner) :
    Claimed withAnonymous bound role (.paren span inner)
  | assign {role : Role} {span : Span} {target value : Node} {name : String}
    (htarget : target.targetName? = some name)
    (hvalue : Claimed withAnonymous bound (.assigned true span) value) :
    Claimed withAnonymous bound role (.assign span true target value)
  | function {role : Role} {span : Span} {named : Bool} {params body : List Node}
    (h : role.indexes withAnonymous named = true) :
    Claimed withAnonymous bound role (.function span named params body)
  | arrow {role : Role} {span : Span} {params body : List Node}
    (h : role.indexes withAnonymous false = true) :
    Claimed withAnonymous bound role (.arrow span params body)
  | object {role : Role} {root : Root} {span : Span} {members : List Node}
    (hrole : role.roots = true) (hbound : bound.root? = some root) :
    Claimed withAnonymous bound role (.object span members)

namespace Script.Node

theorem boundValue_of_value {value : Node} (h : (value.isFunction || value.unparen.isObject) = true) :
    (value.boundValue.isFunction || value.boundValue.isObject) = true := by
  induction value using unparen.induct with
  | case1 _ inner ih => exact ih h
  | case2 n hn =>
    cases n with
    | paren _ inner => exact absurd rfl (hn _ inner)
    | assign => cases h
    | _ => exact h

theorem boundNames?_of_value {value : Node} (h : (value.isFunction || value.unparen.isObject) = true) :
    value.boundNames? = some [] := by
  induction value using unparen.induct with
  | case1 _ inner ih => exact ih h
  | case2 n hn =>
    cases n with
    | paren _ inner => exact absurd rfl (hn _ inner)
    | assign => cases h
    | _ => rfl

end Script.Node

namespace Claimed

variable {withAnonymous : Bool} {bound : Bound} {role : Role} {root : Root}

/-- A function is claimed by a role that indexes all functions. -/
theorem of_function {f : Node} (hindexes : ∀ named, role.indexes withAnonymous named = true)
    (hf : f.functionSpan?.isSome = true) : Claimed withAnonymous bound role f := by
  cases f with
  | function => exact .function (hindexes _)
  | arrow => exact .arrow (hindexes _)
  | _ => cases hf

/-- The value of a name is claimed when it is a function or an object. -/
theorem of_value (hindexes : ∀ named, role.indexes withAnonymous named = true) (hroots : role.roots = true)
    (hroot : bound.root? = some root) {value : Node}
    (h : (value.isFunction || value.unparen.isObject) = true) : Claimed withAnonymous bound role value := by
  induction value using unparen.induct with
  | case1 span inner ih => exact .paren (ih h)
  | case2 n hn =>
    cases n with
    | paren _ inner => exact absurd rfl (hn _ inner)
    | function => exact .function (hindexes _)
    | arrow => exact .arrow (hindexes _)
    | object => exact .object hroots hroot
    | _ => cases h

/-- So is the value of a chain of names. -/
theorem of_chain (hindexes : ∀ named, role.indexes withAnonymous named = true) (hroots : role.roots = true)
    (hroot : bound.root? = some root) {value : Node} {aliases : List String}
    (hnames : value.boundNames? = some aliases)
    (h : (value.boundValue.isFunction || value.boundValue.isObject) = true) :
    Claimed withAnonymous bound role value := by
  induction value using boundNames?.induct generalizing role aliases with
  | case1 span inner ih => exact .paren (ih hindexes hroots hnames h)
  | case2 span target value ih =>
    rw [boundNames?] at hnames
    obtain ⟨name, htarget, hnames⟩ := Option.bind_eq_some_iff.mp hnames
    obtain ⟨more, hmore, -⟩ := Option.bind_eq_some_iff.mp hnames
    exact .assign htarget (ih (fun _ => rfl) rfl hmore h)
  | case3 n hparen hassign =>
    refine of_value hindexes hroots hroot ?_
    cases n with
    | paren => exact absurd rfl (hparen _ _)
    | assign _ isPlain =>
      cases isPlain with
      | true => exact absurd rfl (hassign _ _ _)
      | false => cases h
    | _ => exact h

end Claimed

theorem Script.Node.bareArgument_eq (n : Node) : n.bareArgument = n.unspread.unparen := by
  cases n <;> rfl

/-- An argument that is no function without a name is left alone. -/
theorem Role.Idle.of_argument {withAnonymous : Bool} {n : Node} (h : isAnonymousFunction n = false) :
    Role.argument.Idle withAnonymous n.unspread where
  function around f hf := by
    rw [isAnonymousFunction, bareArgument_eq] at h
    cases hn : n.unspread.unparen with
    | function _ named =>
      rw [hn] at h hf
      cases hf
      cases named with
      | true => exact Bool.and_false withAnonymous
      | false => cases h
    | arrow =>
      rw [hn] at h
      cases h
    | _ =>
      rw [hn] at hf
      cases hf
  object _ := rfl

theorem Claimed.of_argument {bound : Bound} {n : Node} (h : isAnonymousFunction n = true) :
    Claimed true bound .argument n.unspread := by
  refine Node.of_unparen (fun _ _ => .paren) ?_
  rw [isAnonymousFunction, bareArgument_eq] at h
  cases hn : n.unspread.unparen with
  | function _ named =>
    rw [hn] at h
    exact .function h
  | arrow => exact .arrow rfl
  | _ =>
    rw [hn] at h
    cases h

theorem Claimed.of_extension {withAnonymous : Bool} {bound : Bound} {root : Root} {n : Node}
    (hroot : bound.root? = some root) (h : n.bareArgument.isObject = true) :
    Claimed withAnonymous bound .extension n.unspread := by
  refine Node.of_unparen (fun _ _ => .paren) ?_
  rw [bareArgument_eq] at h
  cases hn : n.unspread.unparen with
  | object => exact .object rfl hroot
  | _ =>
    rw [hn] at h
    cases h

theorem Role.Idle.of_extension {withAnonymous : Bool} {n : Node} (h : n.bareArgument.isObject = false) :
    Role.extension.Idle withAnonymous n.unspread where
  function _ _ hf := function?_indexed (fun _ => rfl) hf
  object hobject := by
    rw [← bareArgument_eq, h] at hobject
    cases hobject

namespace Script.Node

/-- The subject of the report about a member whose object has no name. -/
def memberSubject? (m : Node) : Option (DiagnosticKind × Span) :=
  (reportedMember? m).map fun r => (.unresolvedObjectRoot, r.1)

variable (around : List Span)

/-- A value whose object has no name is reported if it is a function, and left alone. -/
theorem held_unrooted (withAnonymous : Bool) (known : Bool) (place : Span) (keyParts : List Node)
    (value : Node) :
    let holding := (keyParts.map (Role.other, ·) ++ [(Role.keyed known false place, value)]).flatMap
      fun p => p.2.held withAnonymous around p.1
    let passed := (keyParts ++ [value]).flatMap (held withAnonymous around .other)
    HeldFunction.places withAnonymous holding = HeldFunction.places withAnonymous passed ∧
    ((if value.isFunction then [(DiagnosticKind.unresolvedObjectRoot, place)] else []) ++
      HeldFunction.reports passed).Perm (HeldFunction.reports holding) := by
  have hidle : (Role.keyed known false place).Idle withAnonymous value :=
    .of_role (fun _ => Bool.and_false _) (Bool.and_false _)
  obtain ⟨hplaces, hreports⟩ := held_idle around value hidle
  simp only [List.flatMap_append, List.flatMap_map, List.flatMap_singleton,
    HeldFunction.places_append, HeldFunction.reports_append, hplaces, hreports, true_and]
  rw [← List.append_assoc, ← List.append_assoc]
  exact List.perm_append_comm.append_right _

/-- A member counts as what it holds, with the report about it. -/
theorem held_member_unrooted {withAnonymous : Bool} {m : Node} (hshaped : m.Shaped) :
    HeldFunction.places withAnonymous
        ((m.memberRoles false).flatMap fun p => p.2.held withAnonymous around p.1) =
      HeldFunction.places withAnonymous (m.held withAnonymous around .other) ∧
    (m.memberSubject?.toList ++ HeldFunction.reports (m.held withAnonymous around .other)).Perm
      (HeldFunction.reports ((m.memberRoles false).flatMap fun p => p.2.held withAnonymous around p.1)) := by
  cases m with
  | property span key keyParts value =>
    obtain ⟨hplaces, hreports⟩ := held_unrooted around withAnonymous key.isSome span keyParts value
    rw [held_of_parts rfl rfl]
    have hsubject : (Node.property span key keyParts value).memberSubject?.toList =
        if value.isFunction then [(.unresolvedObjectRoot, span)] else [] := by
      rw [memberSubject?, reportedMember?]
      split <;> rfl
    rw [hsubject]
    exact ⟨hplaces, hreports⟩
  | method span keyStart key keyParts f =>
    obtain ⟨hplaces, hreports⟩ := held_unrooted around withAnonymous key.isSome
      ⟨keyStart, span.stop⟩ keyParts f
    rw [if_pos (isFunction_of_functionSpan? (Bool.and_eq_true_iff.mp hshaped.self).2)] at hreports
    rw [held_of_parts rfl rfl]
    exact ⟨hplaces, hreports⟩
  | _ =>
    simp only [memberRoles, List.flatMap_singleton]
    exact ⟨trivial, .refl _⟩

end Script.Node
end PageProbe
