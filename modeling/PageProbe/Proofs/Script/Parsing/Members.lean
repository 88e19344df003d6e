import PageProbe.Proofs.Script.Parsing.Places

namespace PageProbe.Script

open Std.Do Placed
set_option mvcgen.warning false

variable {cs : List Char}

/-- A part of the grammar keeps the places of the left operand that is handed over to it. -/
instance : Placed Goal :=
  ⟨fun cs goal => ∀ left least, goal = .operation left least → On cs left⟩

@[grind =] theorem on_goal (goal : Goal) :
    On cs goal ↔ ∀ left least, goal = .operation left least → On cs left := .rfl

namespace Node

theorem on_of_refused {n p : Node} {b : Prop} [Decidable b] (h : On cs n)
    (hp : (if b then some n else some (.plain .invalid n.span [])) = some p) : On cs p := by
  grind

mutual
/-- A pattern keeps the places of the expression as which it was read. -/
theorem on_of_toPattern? (place : Place) :
    (n : Node) → On cs n → ∀ p, n.toPattern? place = some p → On cs p
  | .object s members, h, p, hp => by
    obtain ⟨ns, hns, rfl⟩ := Option.map_eq_some_iff.mp hp
    have := on_of_toMembers? place.element members
    grind
  | .plain form s items, h, p, hp => by
    have := on_of_toElements? place.element items
    cases form with
    | array =>
      obtain ⟨ns, hns, rfl⟩ := Option.map_eq_some_iff.mp hp
      grind
    | _ => exact on_of_refused h hp
  | .assign s isPlain target value, h, p, hp => by
    rw [toPattern?] at hp
    grind
  | .name .., h, p, hp => by
    cases hp
    exact h
  | .this .., h, _, hp => on_of_refused h hp
  | .string .., h, _, hp => on_of_refused h hp
  | .paren .., h, _, hp => on_of_refused h hp
  | .member .., h, _, hp => on_of_refused h hp
  | .call .., h, _, hp => on_of_refused h hp
  | .property .., h, _, hp => on_of_refused h hp
  | .method .., h, _, hp => on_of_refused h hp
  | .spread .., h, _, hp => on_of_refused h hp
  | .function .., h, _, hp => on_of_refused h hp
  | .arrow .., h, _, hp => on_of_refused h hp
  | .functionDecl .., h, _, hp => on_of_refused h hp
  | .varDecl .., h, _, hp => on_of_refused h hp
  | .declarator .., h, _, hp => on_of_refused h hp
  | .statement .., h, _, hp => on_of_refused h hp

theorem on_of_toMembers? (place : Place) :
    (ns : List Node) → On cs ns → ∀ ps, toMembers? place ns = some ps → On cs ps
  | [], h, ps, hps => by
    cases hps
    exact h
  | n :: rest, h, ps, hps => by
    have hrest := on_of_toMembers? place rest
    cases n with
    | property s key keyParts value =>
      have hvalue := on_of_toPattern? place value
      obtain ⟨p, hp, hps⟩ := Option.bind_eq_some_iff.mp hps
      obtain ⟨more, hmore, hps⟩ := Option.bind_eq_some_iff.mp hps
      cases hps
      grind
    | spread s inner =>
      have hinner := on_of_toPattern? place inner
      obtain ⟨p, hp, hps⟩ := Option.bind_eq_some_iff.mp hps
      obtain ⟨more, hmore, hps⟩ := Option.bind_eq_some_iff.mp hps
      cases hps
      grind
    | plain form s parts =>
      cases form with
      | shorthand =>
        obtain ⟨more, hmore, hps⟩ := Option.bind_eq_some_iff.mp hps
        cases hps
        grind
      | _ => cases hps
    | _ => cases hps

theorem on_of_toElements? (place : Place) :
    (ns : List Node) → On cs ns → ∀ ps, toElements? place ns = some ps → On cs ps
  | [], h, ps, hps => by
    cases hps
    exact h
  | n :: rest, h, ps, hps => by
    have hrest := on_of_toElements? place rest
    have hkept (p : Node) (hp : n.toPattern? place = some p) : On cs p :=
      on_of_toPattern? place n (h n List.mem_cons_self) p hp
    have hmore (hps : (do
        let bound ← n.toPattern? place
        let rest ← toElements? place rest
        return bound :: rest) = some ps) : On cs ps := by
      obtain ⟨p, hp, hps⟩ := Option.bind_eq_some_iff.mp hps
      obtain ⟨more, hmore, hps⟩ := Option.bind_eq_some_iff.mp hps
      cases hps
      grind
    cases n with
    | spread s inner =>
      have hinner := on_of_toPattern? place inner
      cases rest with
      | nil =>
        obtain ⟨p, hp, rfl⟩ := Option.map_eq_some_iff.mp hps
        grind
      | cons m rest => exact hrest ((on_cons _ _).mp h).2 ps hps
    | _ => exact hmore hps
end

end Node

namespace Grammar

instance : Placed Grammar.Key := ⟨fun cs k => On cs k.parts⟩

@[grind =] theorem on_key (k : Key) : On cs k ↔ On cs k.parts := .rfl

@[spec] theorem atStrictDirective_keeps : atStrictDirective.Keeps cs := by
  unfold atStrictDirective
  mvcgen

@[spec] theorem atFieldEnd_keeps (loose : Bool) : (atFieldEnd loose).Keeps cs := by
  unfold atFieldEnd
  mvcgen

variable {g : Grammar} (hg : ∀ goal c, On cs goal → (g goal c).Keeps cs)
include hg

@[spec] theorem expression_keeps (c : Context) : (g.expression c).Keeps cs := by
  unfold expression
  mvcgen [hg]
  all_goals grind

@[spec] theorem spreadable_keeps (c : Context) : (g.spreadable c).Keeps cs := by
  unfold spreadable
  mvcgen [hg]
  all_goals grind

@[spec] theorem arguments_keeps (c : Context) : (g.arguments c).Keeps cs := by
  unfold arguments
  mvcgen [hg]
  all_goals grind

@[spec] theorem key_keeps (c : Context) : (g.key c).Keeps cs := by
  unfold key
  mvcgen [hg]
  all_goals grind

@[spec] theorem arrayPattern_keeps (c : Context) : (g.arrayPattern c).Keeps cs := by
  unfold arrayPattern
  mvcgen [hg]
  all_goals grind

@[spec] theorem memberPattern_keeps (c : Context) : (g.memberPattern c).Keeps cs := by
  unfold memberPattern
  mvcgen [hg]
  all_goals grind

@[spec] theorem objectPattern_keeps (c : Context) : (g.objectPattern c).Keeps cs := by
  unfold objectPattern
  mvcgen [hg]
  all_goals grind

@[spec] theorem binding_keeps (c : Context) : (g.binding c).Keeps cs := by
  unfold binding
  mvcgen [hg]
  all_goals grind

@[spec] theorem element_keeps (c : Context) : (g.element c).Keeps cs := by
  unfold element
  mvcgen [hg]
  all_goals grind

@[spec] theorem blockBody_keeps (c : Context) : (g.blockBody c).Keeps cs := by
  unfold blockBody
  mvcgen [hg]
  all_goals grind

@[spec] theorem block_keeps (c : Context) : (g.block c).Keeps cs := by
  unfold block
  mvcgen [hg]
  all_goals grind

@[spec] theorem functionBody_keeps (c : Context) : (g.functionBody c).Keeps cs := by
  unfold functionBody
  mvcgen [hg]
  all_goals grind

@[spec] theorem parameters_keeps (c : Context) : (g.parameters c).Keeps cs := by
  unfold parameters
  mvcgen [hg]
  all_goals grind

@[spec] theorem functionTail_keeps (c : Context) {start : Nat} (hstart : Text.Boundary cs start)
    (named isAsync isGenerator : Bool) :
    (g.functionTail c start named isAsync isGenerator).Keeps cs := by
  unfold functionTail
  mvcgen [hg]
  all_goals grind

@[spec] theorem methodTail_keeps (c : Context) {start : Nat} (hstart : Text.Boundary cs start)
    (isAsync isGenerator : Bool) : (g.methodTail c start isAsync isGenerator).Keeps cs := by
  unfold methodTail
  mvcgen [hg]
  all_goals grind

@[spec] theorem functionExpression_keeps (c : Context) {start : Nat} (hstart : Text.Boundary cs start)
    (isAsync : Bool) : (g.functionExpression c start isAsync).Keeps cs := by
  unfold functionExpression
  mvcgen [hg]
  all_goals grind

@[spec] theorem functionDeclaration_keeps (c : Context) {start : Nat} (hstart : Text.Boundary cs start)
    (isAsync : Bool) : (g.functionDeclaration c start isAsync).Keeps cs := by
  unfold functionDeclaration
  mvcgen [hg]
  all_goals grind

@[spec] theorem arrowTail_keeps (c : Context) {start : Nat} (hstart : Text.Boundary cs start)
    (isAsync : Bool) {params : List Node} (hparams : On cs params) :
    (g.arrowTail c start isAsync params).Keeps cs := by
  unfold arrowTail
  mvcgen [hg]
  all_goals grind

@[spec] theorem introducedMember_keeps (c : Context) (word : String) {start : Nat}
    (hstart : Text.Boundary cs start) : (g.introducedMember c word start).Keeps cs := by
  unfold introducedMember
  mvcgen [hg]
  all_goals grind

@[spec] theorem objectMember_keeps (c : Context) : (g.objectMember c).Keeps cs := by
  unfold objectMember
  mvcgen [hg]
  all_goals grind

@[spec] theorem object_keeps (c : Context) : (g.object c).Keeps cs := by
  unfold object
  mvcgen [hg]
  all_goals grind

@[spec] theorem classKey_keeps (c : Context) : (g.classKey c).Keeps cs := by
  unfold classKey
  mvcgen [hg]
  all_goals grind

@[spec] theorem classMethod_keeps (c : Context) {start : Nat} (hstart : Text.Boundary cs start)
    {k : Key} (hk : On cs k) (isAsync isGenerator : Bool) :
    (g.classMethod c start k isAsync isGenerator).Keeps cs := by
  unfold classMethod
  mvcgen [hg]
  all_goals grind

@[spec] theorem classField_keeps (c : Context) {start : Nat} (hstart : Text.Boundary cs start)
    {k : Key} (hk : On cs k) : (g.classField c start k).Keeps cs := by
  unfold classField
  mvcgen [hg]
  all_goals grind

@[spec] theorem constructorTail_keeps (c : Context) {start : Nat} (hstart : Text.Boundary cs start) :
    (g.constructorTail c start).Keeps cs := by
  unfold constructorTail
  mvcgen [hg]
  all_goals grind

@[spec] theorem classMemberTail_keeps (c : Context) {start : Nat} (hstart : Text.Boundary cs start)
    (isStatic : Bool) : (g.classMemberTail c start isStatic).Keeps cs := by
  unfold classMemberTail
  mvcgen [hg]
  all_goals grind

@[spec] theorem classMember_keeps (c : Context) : (g.classMember c).Keeps cs := by
  unfold classMember
  mvcgen [hg]
  all_goals grind

@[spec] theorem classTail_keeps (c : Context) {start : Nat} (hstart : Text.Boundary cs start) :
    (g.classTail c start).Keeps cs := by
  unfold classTail
  mvcgen [hg]
  all_goals grind

@[spec] theorem classNode_keeps (c : Context) {start : Nat} (hstart : Text.Boundary cs start)
    (declared : Bool) : (g.classNode c start declared).Keeps cs := by
  unfold classNode
  mvcgen [hg]
  all_goals grind

end Grammar
end PageProbe.Script
