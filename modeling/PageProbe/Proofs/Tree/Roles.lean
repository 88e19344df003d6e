import PageProbe.Proofs.Script.Subtree
import PageProbe.Tree.Declarations

/-!
A node gives a role to each node that it holds, and the role of a function tells whether the function
is indexed, reported or left alone. Here it is told for all functions of a script at once, without
following the way in which a tree is indexed.
-/

namespace PageProbe

open Script

/-- How a function or an object is held. -/
inductive Role where
  /-- By a declaration of its own. -/
  | declaration
  /-- As the value of a declared name. -/
  | initial
  /-- As the right side of a plain assignment in a place, whose target is a name or a chain of names
      or none of these. -/
  | assigned (named : Bool) (place : Span)
  /-- By a member of an object in a place. The object may have a name. -/
  | keyed (known rooted : Bool) (place : Span)
  | argument
  /-- As an argument of a call that extends what has a name. -/
  | extension
  | other
deriving DecidableEq, Repr

namespace Role

/-- Whether an object in a role has a name. -/
def roots : Role → Bool
  | initial => true
  | assigned named _ => named
  | keyed known rooted _ => known && rooted
  | extension => true
  | _ => false

/-- Whether a function in a role is indexed, which may depend on whether it has a name of its own. -/
def indexes (withAnonymous named : Bool) : Role → Bool
  | declaration => true
  | initial => true
  | assigned bound _ => bound
  | keyed known rooted _ => known && rooted
  | argument => withAnonymous && !named
  | _ => false

/-- What holds a function and may be reported for it, with the kind of the report. -/
def holder? : Role → Option (DiagnosticKind × Span)
  | assigned _ place => some (.unsupportedAssignmentTarget, place)
  | keyed _ _ place => some (.unresolvedObjectRoot, place)
  | _ => none

/-- What is reported for a function in a role. -/
def report? : Role → Option (DiagnosticKind × Span)
  | assigned false place => some (.unsupportedAssignmentTarget, place)
  | keyed _ false place => some (.unresolvedObjectRoot, place)
  | _ => none

/-- Whether each function in a role has to be indexed or reported. -/
def accountable : Role → Bool
  | declaration => true
  | initial => true
  | assigned _ _ => true
  | keyed known _ _ => known
  | _ => false

end Role

/-- A function of a script. -/
structure HeldFunction where
  role : Role
  /-- Whether it has a name of its own. -/
  named : Bool
  range : Span
  /-- The ranges of the indexed functions around it, innermost first. -/
  around : List Span
deriving DecidableEq, Repr

namespace HeldFunction

def indexed (withAnonymous : Bool) (f : HeldFunction) : Bool := f.role.indexes withAnonymous f.named

/-- Where the leaf of a function is: its range, and the ranges around it. -/
def place (f : HeldFunction) : Span × List Span := (f.range, f.around)

end HeldFunction

namespace Script.Node

/-- What a member of an object holds, and how. -/
def memberRoles (rooted : Bool) : Node → List (Role × Node)
  | .property span key keyParts value =>
    keyParts.map (.other, ·) ++ [(.keyed key.isSome rooted span, value)]
  | .method span keyStart key keyParts f =>
    keyParts.map (.other, ·) ++ [(.keyed key.isSome rooted ⟨keyStart, span.stop⟩, f)]
  | n => [(.other, n)]

def declaratorRoles : Node → List (Role × Node)
  | .declarator _ (.name ..) (some value) => [(.initial, value)]
  | n => [(.other, n)]

/-- An argument without its spread mark. -/
def unspread : Node → Node
  | .spread _ inner => inner
  | n => n

def argumentRole (callee : Node) (args : List Node) : Role :=
  match extendOf callee args with
  | .root _ => .extension
  | _ => .argument

/-- What a node holds, and how. Parentheses hand on how they are held themselves, and the members of an
    object have a name to start with if the object has one. -/
def roles (role : Role) : Node → List (Role × Node)
  | .paren _ inner => [(role, inner)]
  | .call _ callee args =>
    (.other, callee) :: args.map fun a => (argumentRole callee args, a.unspread)
  | .assign span true target value =>
    [(.other, target), (.assigned target.targetName?.isSome span, value)]
  | .object _ members => members.flatMap (memberRoles role.roots)
  | .functionDecl _ _ f => [(.declaration, f)]
  | .varDecl _ declarators => declarators.flatMap declaratorRoles
  | n => n.parts.map (.other, ·)

/-- The function that a node is. -/
def function? (role : Role) (around : List Span) : Node → Option HeldFunction
  | .function span named _ _ => some ⟨role, named, span, around⟩
  | .arrow span _ _ => some ⟨role, false, span, around⟩
  | _ => none

/-- The range of the function that a node is. -/
def functionSpan? : Node → Option Span
  | .function span _ _ _ => some span
  | .arrow span _ _ => some span
  | _ => none

theorem sizeOf_le_of_mem_memberRoles {rooted : Bool} {m : Node} {p : Role × Node}
    (h : p ∈ m.memberRoles rooted) : sizeOf p.2 ≤ sizeOf m := by
  have hpart (hp : p.2 ∈ m.parts) : sizeOf p.2 ≤ sizeOf m := Nat.le_of_lt (sizeOf_lt_of_mem_parts hp)
  cases m with
  | property | method =>
    refine hpart ?_
    simp only [memberRoles, List.mem_append, List.mem_map, List.mem_singleton] at h
    rcases h with ⟨q, hq, rfl⟩ | rfl
    · exact List.mem_append_left _ hq
    · exact List.mem_append_right _ List.mem_cons_self
  | _ =>
    cases List.mem_singleton.mp h
    exact Nat.le_refl _

theorem sizeOf_le_of_mem_declaratorRoles {d : Node} {p : Role × Node} (h : p ∈ d.declaratorRoles) :
    sizeOf p.2 ≤ sizeOf d := by
  unfold declaratorRoles at h
  split at h
  · cases List.mem_singleton.mp h
    exact Nat.le_of_lt (sizeOf_lt_of_mem_parts (by simp [parts]))
  · cases List.mem_singleton.mp h
    exact Nat.le_refl _

theorem sizeOf_unspread_le (n : Node) : sizeOf n.unspread ≤ sizeOf n := by
  cases n with
  | spread _ inner => exact Nat.le_of_lt (sizeOf_lt_of_mem_parts (by simp [parts, unspread]))
  | _ => exact Nat.le_refl _

theorem unspread_mem_subtree (n : Node) : n.unspread ∈ n.subtree := by
  cases n with
  | spread _ inner => exact mem_subtree_of_part List.mem_cons_self inner.self_mem_subtree
  | _ => exact self_mem_subtree _

theorem declaredAs_unspread (s : Scope) (bound : Bound) (n : Node) :
    declaredAs s bound n.unspread = declaredAs s bound n := by
  cases n with
  | spread => rw [declaredAs, unspread]
  | _ => rfl

theorem sizeOf_lt_of_mem_roles {role : Role} {n : Node} {p : Role × Node} (h : p ∈ n.roles role) :
    sizeOf p.2 < sizeOf n := by
  have hpart (q : Node) (hq : q ∈ n.parts) (hle : sizeOf p.2 ≤ sizeOf q) : sizeOf p.2 < sizeOf n :=
    Nat.lt_of_le_of_lt hle (sizeOf_lt_of_mem_parts hq)
  unfold roles at h
  split at h
  · cases List.mem_singleton.mp h
    exact hpart _ (by simp [parts]) (Nat.le_refl _)
  · rcases List.mem_cons.mp h with rfl | h
    · exact hpart _ (by simp [parts]) (Nat.le_refl _)
    · obtain ⟨a, ha, rfl⟩ := List.mem_map.mp h
      exact hpart a (by simp [parts, ha]) a.sizeOf_unspread_le
  · simp only [List.mem_cons, List.not_mem_nil, or_false] at h
    rcases h with rfl | rfl
    · exact hpart _ (by simp [parts]) (Nat.le_refl _)
    · exact hpart _ (by simp [parts]) (Nat.le_refl _)
  · obtain ⟨m, hm, hp⟩ := List.mem_flatMap.mp h
    exact hpart m hm (sizeOf_le_of_mem_memberRoles hp)
  · cases List.mem_singleton.mp h
    exact hpart _ (by simp [parts]) (Nat.le_refl _)
  · obtain ⟨d, hd, hp⟩ := List.mem_flatMap.mp h
    exact hpart d hd (sizeOf_le_of_mem_declaratorRoles hp)
  · obtain ⟨q, hq, rfl⟩ := List.mem_map.mp h
    exact hpart q hq (Nat.le_refl _)

/-- The ranges around what a node holds. -/
def rangesInside (withAnonymous : Bool) (around : List Span) (role : Role) (n : Node) : List Span :=
  match n.function? role around with
  | some f => if f.indexed withAnonymous then f.range :: around else around
  | none => around

/-- All functions of a node, every function before the functions inside it. -/
def held (withAnonymous : Bool) (around : List Span) (role : Role) (n : Node) : List HeldFunction :=
  (n.function? role around).toList ++ (n.roles role).attach.flatMap fun p =>
    held withAnonymous (n.rangesInside withAnonymous around role) p.val.1 p.val.2
termination_by sizeOf n
decreasing_by exact sizeOf_lt_of_mem_roles p.property

theorem held_eq (withAnonymous : Bool) (around : List Span) (role : Role) (n : Node) :
    n.held withAnonymous around role = (n.function? role around).toList ++
      (n.roles role).flatMap fun p =>
        p.2.held withAnonymous (n.rangesInside withAnonymous around role) p.1 := by
  rw [held]
  simp only [List.flatMap_subtype, List.unattach_attach]

theorem function?_range (role : Role) (around : List Span) (n : Node) :
    (n.function? role around).map (·.range) = n.functionSpan? := by
  cases n <;> rfl

/-- The functions of a node. -/
def functionSpans (n : Node) : List Span := n.subtree.filterMap functionSpan?

theorem functionSpans_eq (n : Node) :
    n.functionSpans = n.functionSpan?.toList ++ n.parts.flatMap functionSpans := by
  rw [functionSpans, subtree_eq, List.filterMap_cons, List.filterMap_flatMap]
  cases n.functionSpan? <;> rfl

theorem memberRoles_functionSpans (rooted : Bool) (m : Node) :
    ((m.memberRoles rooted).flatMap fun p => p.2.functionSpans) = m.functionSpans := by
  cases m with
  | property =>
    rw [functionSpans_eq (.property ..)]
    simp [memberRoles, parts, functionSpan?, List.flatMap_map]
  | method =>
    rw [functionSpans_eq (.method ..)]
    simp [memberRoles, parts, functionSpan?, List.flatMap_map]
  | _ => simp [memberRoles]

theorem declaratorRoles_functionSpans (d : Node) :
    (d.declaratorRoles.flatMap fun p => p.2.functionSpans) = d.functionSpans := by
  unfold declaratorRoles
  split
  · rw [functionSpans_eq (.declarator ..)]
    simp [parts, functionSpan?, functionSpans_eq (.name ..)]
  · simp

theorem unspread_functionSpans (n : Node) : n.unspread.functionSpans = n.functionSpans := by
  cases n with
  | spread => simp [unspread, functionSpans_eq (.spread ..), parts, functionSpan?]
  | _ => rfl

/-- The roles leave out no function. -/
theorem roles_functionSpans (role : Role) (n : Node) :
    ((n.roles role).flatMap fun p => p.2.functionSpans) = n.parts.flatMap functionSpans := by
  unfold roles
  split
  · rfl
  · simp [parts, List.flatMap_map, unspread_functionSpans]
  · rfl
  · rw [List.flatMap_assoc]
    exact List.flatMap_congr fun m _ => memberRoles_functionSpans role.roots m
  · rfl
  · rw [List.flatMap_assoc]
    exact List.flatMap_congr fun d _ => declaratorRoles_functionSpans d
  · rw [List.flatMap_map]

theorem held_ranges (withAnonymous : Bool) (around : List Span) (role : Role) (n : Node) :
    (n.held withAnonymous around role).map (·.range) = n.functionSpans := by
  rw [held_eq, functionSpans_eq, List.map_append, List.map_flatMap, ← roles_functionSpans role]
  congr 1
  · rw [← function?_range role around, Option.toList_map]
  · exact List.flatMap_congr fun p hp => held_ranges withAnonymous _ p.1 p.2
termination_by sizeOf n
decreasing_by exact sizeOf_lt_of_mem_roles hp

theorem isFunction_of_functionSpan? {n : Node} (h : n.functionSpan?.isSome = true) :
    n.isFunction = true := by
  cases n with
  | function => rfl
  | arrow => rfl
  | _ => cases h

theorem around_of_function? {role : Role} {around : List Span} {n : Node} {f : HeldFunction}
    (h : n.function? role around = some f) : f.around = around := by
  cases n with
  | function => cases h; rfl
  | arrow => cases h; rfl
  | _ => cases h

/-- What the grammar says of a node beyond its form: a key that is known is not computed, but for a text
    in brackets behind an object, and a method and a declaration hold a function. -/
def shaped : Node → Bool
  | .member _ _ (some _) parts => parts.all fun
    | .string .. => true
    | _ => false
  | .property _ (some _) keyParts _ => keyParts.isEmpty
  | .method _ _ key keyParts f => (key.isNone || keyParts.isEmpty) && f.functionSpan?.isSome
  | .functionDecl _ _ f => f.functionSpan?.isSome
  | _ => true

/-- A syntax tree of the grammar. -/
def Shaped (n : Node) : Prop := ∀ m ∈ n.subtree, m.shaped = true

theorem Shaped.self {n : Node} (h : n.Shaped) : n.shaped = true := h n n.self_mem_subtree

theorem Shaped.part {n p : Node} (h : n.Shaped) (hp : p ∈ n.parts) : p.Shaped := fun m hm =>
  h m (mem_subtree_of_part hp hm)

section
variable {withAnonymous : Bool} {around : List Span} {role : Role}

/-- A node that is no function only holds functions. -/
theorem held_of_none {n : Node} (h : n.functionSpan? = none) :
    n.held withAnonymous around role =
      (n.roles role).flatMap fun p => p.2.held withAnonymous around p.1 := by
  rw [held_eq, rangesInside]
  cases n with
  | function => cases h
  | arrow => cases h
  | _ => rfl

/-- Most nodes hold their parts in no way of their own. -/
theorem held_of_parts {n : Node} (h : n.functionSpan? = none) (hroles : n.roles role = n.parts.map (.other, ·)) :
    n.held withAnonymous around role = n.parts.flatMap (held withAnonymous around .other) := by
  rw [held_of_none h, hroles, List.flatMap_map]

theorem held_of_some {n : Node} {f : HeldFunction} (h : n.function? role around = some f) :
    n.held withAnonymous around role =
      f :: n.parts.flatMap
        (held withAnonymous (if f.indexed withAnonymous then f.range :: around else around) .other) := by
  have hroles : n.roles role = n.parts.map (.other, ·) := by
    cases n with
    | function => rfl
    | arrow => rfl
    | _ => cases h
  rw [held_eq, rangesInside, h, hroles, List.flatMap_map]
  rfl

theorem held_paren (span : Span) (inner : Node) :
    (Node.paren span inner).held withAnonymous around role = inner.held withAnonymous around role := by
  rw [held_of_none rfl, roles, List.flatMap_singleton]

theorem held_object (span : Span) (members : List Node) :
    (Node.object span members).held withAnonymous around role =
      members.flatMap fun m =>
        (m.memberRoles role.roots).flatMap fun p => p.2.held withAnonymous around p.1 := by
  rw [held_of_none rfl, roles, List.flatMap_assoc]

theorem held_unspread (n : Node) :
    n.unspread.held withAnonymous around .other = n.held withAnonymous around .other := by
  cases n with
  | spread span inner =>
    rw [held_of_parts (n := .spread span inner) rfl rfl, parts, List.flatMap_singleton]
    rfl
  | _ => rfl

/-- A chain of names holds no function. -/
theorem held_of_chainName? {n : Node} {name : String} (hshaped : n.Shaped) (h : n.chainName? = some name) :
    n.held withAnonymous around .other = [] := by
  induction n using chainName?.induct generalizing name with
  | case1 => exact held_of_parts rfl rfl
  | case2 => exact held_of_parts rfl rfl
  | case3 _ inner ih =>
    rw [held_paren]
    exact ih (hshaped.part (by simp [parts])) h
  | case4 span holder key ps ih =>
    rw [chainName?] at h
    obtain ⟨first, hfirst, h⟩ := Option.bind_eq_some_iff.mp h
    obtain ⟨last, hlast, h⟩ := Option.bind_eq_some_iff.mp h
    subst hlast
    have hparts : ∀ p ∈ ps, p.held withAnonymous around .other = [] := by
      intro p hp
      have htext := List.all_eq_true.mp hshaped.self p hp
      cases p with
      | string => exact held_of_parts rfl rfl
      | _ => cases htext
    have hholder := ih (hshaped.part (by simp [parts])) hfirst
    rw [held_of_parts rfl rfl, parts, List.flatMap_cons, hholder, List.nil_append]
    exact List.flatMap_eq_nil_iff.mpr hparts
  | case5 n hname hthis hparen hmember =>
    cases n with
    | name => exact absurd rfl (hname _ _)
    | this => exact absurd rfl (hthis _)
    | paren => exact absurd rfl (hparen _ _)
    | member => exact absurd rfl (hmember _ _ _ _)
    | _ => cases h

theorem held_of_targetName? {n : Node} {name : String} (hshaped : n.Shaped) (h : n.targetName? = some name) :
    n.held withAnonymous around .other = [] := by
  cases n with
  | name => exact held_of_chainName? hshaped h
  | member => exact held_of_chainName? hshaped h
  | _ => cases h

theorem held_call (span : Span) (callee : Node) (args : List Node) :
    (Node.call span callee args).held withAnonymous around role =
      callee.held withAnonymous around .other ++
        args.flatMap fun a => a.unspread.held withAnonymous around (argumentRole callee args) := by
  rw [held_of_none rfl, roles, List.flatMap_cons, List.flatMap_map]

theorem held_assign (span : Span) (target value : Node) :
    (Node.assign span true target value).held withAnonymous around role =
      target.held withAnonymous around .other ++
        value.held withAnonymous around (.assigned target.targetName?.isSome span) := by
  rw [held_of_none rfl, roles, List.flatMap_cons, List.flatMap_singleton]

theorem held_varDecl (span : Span) (declarators : List Node) :
    (Node.varDecl span declarators).held withAnonymous around role =
      declarators.flatMap fun d =>
        d.declaratorRoles.flatMap fun p => p.2.held withAnonymous around p.1 := by
  rw [held_of_none rfl, roles, List.flatMap_assoc]

end

end Script.Node

namespace HeldFunction

/-- The places of the functions that are indexed. -/
def places (withAnonymous : Bool) (fs : List HeldFunction) : List (Span × List Span) :=
  (fs.filter (·.indexed withAnonymous)).map place

/-- What is reported for the functions that are not. -/
def reports (fs : List HeldFunction) : List (DiagnosticKind × Span) := fs.filterMap (·.role.report?)

@[simp] theorem places_nil (withAnonymous : Bool) : places withAnonymous [] = [] := rfl

@[simp] theorem reports_nil : reports [] = [] := rfl

@[simp] theorem places_append (withAnonymous : Bool) (fs gs : List HeldFunction) :
    places withAnonymous (fs ++ gs) = places withAnonymous fs ++ places withAnonymous gs := by
  rw [places, List.filter_append, List.map_append, places, places]

@[simp] theorem reports_append (fs gs : List HeldFunction) : reports (fs ++ gs) = reports fs ++ reports gs :=
  List.filterMap_append

theorem places_flatMap {α : Type} (withAnonymous : Bool) (l : List α) (f : α → List HeldFunction) :
    places withAnonymous (l.flatMap f) = l.flatMap fun a => places withAnonymous (f a) := by
  rw [places, List.filter_flatMap, List.map_flatMap]
  rfl

theorem reports_flatMap {α : Type} (l : List α) (f : α → List HeldFunction) :
    reports (l.flatMap f) = l.flatMap fun a => reports (f a) :=
  List.filterMap_flatMap

theorem report?_of_indexed {withAnonymous : Bool} {f : HeldFunction}
    (h : f.indexed withAnonymous = true) : f.role.report? = none := by
  unfold indexed Role.indexes at h
  unfold Role.report?
  split at h <;> grind

theorem places_cons {withAnonymous : Bool} {f : HeldFunction}
    (h : f.indexed withAnonymous = true) (fs : List HeldFunction) :
    places withAnonymous (f :: fs) = f.place :: places withAnonymous fs := by
  rw [places, List.filter_cons_of_pos h]
  rfl

theorem reports_cons {withAnonymous : Bool} {f : HeldFunction}
    (h : f.indexed withAnonymous = true) (fs : List HeldFunction) : reports (f :: fs) = reports fs :=
  List.filterMap_cons_none (report?_of_indexed h)

end HeldFunction

/-- All functions of a script. -/
def Script.Program.functions (program : Program) (withAnonymous : Bool) : List HeldFunction :=
  program.body.flatMap (Node.held withAnonymous [] .other)

/-- A script whose syntax trees are of the grammar. -/
def Script.Program.Shaped (program : Program) : Prop := ∀ n ∈ program.body, n.Shaped

/-- The ranges of all functions of a script. -/
def Script.Program.functionSpans (program : Program) : List Span :=
  program.nodes.filterMap Node.functionSpan?

theorem Script.Program.functions_ranges (program : Program) (withAnonymous : Bool) :
    (program.functions withAnonymous).map (·.range) = program.functionSpans := by
  rw [functions, functionSpans, nodes, List.map_flatMap, List.filterMap_flatMap]
  exact List.flatMap_congr fun n _ => Node.held_ranges withAnonymous [] .other n

end PageProbe
