import PageProbe.Proofs.Script.Parsing.Members

namespace PageProbe.Script

open Std.Do Placed
set_option mvcgen.warning false

variable {cs : List Char}

namespace Grammar

@[spec] theorem regex_keeps {s : State} (hs : s.On cs) : (regex s).Keeps cs := by
  have hslash := hs.text.next
  unfold regex
  mvcgen
  all_goals grind

theorem on_of_arrowParams {ns ps : List Node} (h : On cs ns) (hps : arrowParams ns = some ps) :
    On cs ps := by
  fun_induction arrowParams ns generalizing ps with
  | case1 =>
    cases hps
    exact h
  | case2 s inner =>
    have hspread := (Node.on_spread s inner).mp (h _ List.mem_cons_self)
    have hinner := Node.on_of_toPattern? .bound inner hspread.2
    obtain ⟨p, hp, rfl⟩ := Option.map_eq_some_iff.mp hps
    grind
  | case3 => grind
  | case4 n =>
    have hfirst := Node.on_of_toPattern? .bound n (h _ List.mem_cons_self)
    obtain ⟨p, hp, hps⟩ := Option.bind_eq_some_iff.mp hps
    obtain ⟨more, hmore, hps⟩ := Option.bind_eq_some_iff.mp hps
    cases hps
    grind

@[spec] theorem atBinaryMark_keeps : atBinaryMark.Keeps cs := by
  unfold atBinaryMark
  mvcgen

@[grind ←] theorem boundary_getLast {first : Node} {more : List Node} (hfirst : On cs first)
    (hmore : On cs more) :
    Text.Boundary cs ((more.getLast?.map (·.span.stop)).getD first.span.stop) := by
  cases h : more.getLast? with
  | none => exact (Node.on_of_span hfirst).2
  | some last => exact (Node.on_of_span (hmore last (List.mem_of_getLast? h))).2

@[grind ←] theorem boundary_startOr {s : Option Span} (hs : On cs s) {place : Nat}
    (hplace : Text.Boundary cs place) : Text.Boundary cs ((s.map (·.start)).getD place) := by
  cases s with
  | none => exact hplace
  | some s => exact (hs s rfl).1

instance : Placed Head := ⟨fun cs h => match h with
  | .node n => On cs n
  | .super s => On cs s
  | .import_ s => On cs s⟩

@[grind =] theorem on_node (n : Node) : On cs (Head.node n) ↔ On cs n := .rfl

@[grind =] theorem on_super (s : Span) : On cs (Head.super s) ↔ On cs s := .rfl

@[grind =] theorem on_import (s : Span) : On cs (Head.import_ s) ↔ On cs s := .rfl

@[grind ←] theorem boundary_start {h : Head} (hh : On cs h) : Text.Boundary cs h.start := by
  cases h with
  | node n => exact (Node.on_of_span hh).1
  | super s => exact hh.1
  | import_ s => exact hh.1

@[grind ←] theorem on_memberOf {h : Head} {span : Span} {parts : List Node} (hh : On cs h)
    (hspan : On cs span) (hparts : On cs parts) (optional : Bool) (key : Option String) :
    On cs (memberOf h optional span key parts) := by
  unfold memberOf
  cases h with
  | node n =>
    split
    all_goals grind
  | super s => grind
  | import_ s => grind

@[spec] theorem atPrefix_keeps : atPrefix.Keeps cs := by
  unfold atPrefix
  mvcgen

@[spec] theorem atUpdate_keeps : atUpdate.Keeps cs := by
  unfold atUpdate
  mvcgen

@[spec] theorem binaryOperator_keeps (c : Context) :
    ⦃fun s => ⌜State.On cs s⌝⦄ binaryOperator c
      ⦃post⟨fun _ s => ⌜State.On cs s⌝, fun _ _ => ⌜False⌝⟩⦄ := by
  unfold binaryOperator
  mvcgen

variable {g : Grammar} (hg : ∀ goal c, On cs goal → (g goal c).Keeps cs)
include hg

@[spec] theorem templateWith_keeps (c : Context) (tagged : Bool) (fuel : Nat) :
    (g.templateWith c tagged fuel).Keeps cs := by
  induction fuel with
  | zero =>
    unfold templateWith
    mvcgen
  | succ fuel ih =>
    unfold templateWith
    mvcgen [hg, ih]
    all_goals grind

@[spec] theorem template_keeps (c : Context) (tagged : Bool) : (g.template c tagged).Keeps cs := by
  unfold template
  mvcgen [hg]
  all_goals grind

@[spec] theorem array_keeps (c : Context) : (g.array c).Keeps cs := by
  unfold array
  mvcgen [hg]
  all_goals grind

@[spec] theorem parenthesis_keeps (c : Context) (mayBeArrow : Bool) {asyncSpan : Option Span}
    (hspan : On cs asyncSpan) : (g.parenthesis c mayBeArrow asyncSpan).Keeps cs := by
  unfold parenthesis
  mvcgen [hg]
  all_goals grind [on_of_arrowParams]

@[spec] theorem nameOrArrow_keeps (c : Context) (mayBeArrow : Bool) :
    (g.nameOrArrow c mayBeArrow).Keeps cs := by
  unfold nameOrArrow
  mvcgen [hg]
  all_goals grind

@[spec] theorem asyncOperand_keeps (c : Context) (mayBeArrow : Bool) :
    (g.asyncOperand c mayBeArrow).Keeps cs := by
  unfold asyncOperand
  mvcgen [hg]
  all_goals grind

@[spec] theorem primary_keeps (c : Context) : (g.primary c).Keeps cs := by
  unfold primary
  mvcgen [hg]
  all_goals grind

@[spec] theorem chainStep_keeps (c : Context) (calls : Bool) {start : Nat}
    (hstart : Text.Boundary cs start) {h : Head} (hh : On cs h) :
    (g.chainStep c calls start h).Keeps cs := by
  unfold chainStep
  cases h with
  | node n =>
    mvcgen [hg]
    all_goals grind
  | super s =>
    mvcgen [hg]
    all_goals grind
  | import_ s =>
    mvcgen [hg]
    all_goals grind

@[spec] theorem chainWith_keeps (c : Context) (calls : Bool) {start : Nat}
    (hstart : Text.Boundary cs start) (fuel : Nat) {h : Head} (hh : On cs h) :
    (g.chainWith c calls start fuel h).Keeps cs := by
  induction fuel generalizing h with
  | zero =>
    unfold chainWith
    mvcgen
  | succ fuel ih =>
    unfold chainWith
    mvcgen [hg, ih]
    all_goals grind

@[spec] theorem chain_keeps (c : Context) (calls : Bool) {h : Head} (hh : On cs h) :
    (g.chain c calls h).Keeps cs := by
  unfold chain
  mvcgen [hg]
  all_goals grind

@[spec] theorem importTail_keeps (c : Context) (calls : Bool) {span : Span} (hspan : On cs span) :
    (g.importTail c calls span).Keeps cs := by
  unfold importTail
  mvcgen [hg]
  all_goals grind

@[spec] theorem construction_keeps (c : Context) : (g.construction c).Keeps cs := by
  unfold construction
  mvcgen [hg]
  all_goals grind

@[spec] theorem leftHand_keeps (c : Context) : (g.leftHand c).Keeps cs := by
  unfold leftHand
  mvcgen [hg]
  all_goals grind

@[spec] theorem unary_keeps (c : Context) : (g.unary c).Keeps cs := by
  unfold unary
  mvcgen [hg]
  all_goals grind

@[spec] theorem operationWith_keeps (c : Context) (least fuel : Nat) {left : Node}
    (hleft : On cs left) : (g.operationWith c least fuel left).Keeps cs := by
  induction fuel generalizing left with
  | zero =>
    unfold operationWith
    mvcgen
  | succ fuel ih =>
    unfold operationWith
    mvcgen [hg, ih]
    all_goals grind

@[spec] theorem operation_keeps (c : Context) {left : Node} (hleft : On cs left) (least : Nat) :
    (g.operation c left least).Keeps cs := by
  unfold operation
  mvcgen [hg]
  all_goals grind

@[spec] theorem operations_keeps (c : Context) : (g.operations c).Keeps cs := by
  unfold operations
  mvcgen [hg]
  all_goals grind

@[spec] theorem conditional_keeps (c : Context) : (g.conditional c).Keeps cs := by
  unfold conditional
  mvcgen [hg]
  all_goals grind

@[spec] theorem yieldTail_keeps (c : Context) : (g.yieldTail c).Keeps cs := by
  unfold yieldTail
  mvcgen [hg]
  all_goals grind

@[spec] theorem assignment_keeps (c : Context) : (g.assignment c).Keeps cs := by
  unfold assignment
  mvcgen [hg]
  all_goals grind [Node.on_of_toPattern?]

end Grammar
end PageProbe.Script
