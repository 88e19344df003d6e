import PageProbe.Proofs.Script.Parsing.Operands

namespace PageProbe.Script

open Std.Do Placed
set_option mvcgen.warning false

variable {cs : List Char}

namespace Grammar

@[spec] theorem statementFrom_keeps {start : Nat} (hstart : Text.Boundary cs start) {parts : List Node}
    (hparts : On cs parts) : (statementFrom start parts).Keeps cs := by
  unfold statementFrom
  mvcgen
  all_goals grind

@[spec] theorem skipToSemicolon_keeps : skipToSemicolon.Keeps cs := by
  unfold skipToSemicolon
  mvcgen
  all_goals grind

@[spec] theorem atEach_keeps : atEach.Keeps cs := by
  unfold atEach
  mvcgen

@[spec] theorem jumpStatement_keeps : jumpStatement.Keeps cs := by
  unfold jumpStatement
  mvcgen
  all_goals grind

section

variable {g : Grammar} (hg : ∀ goal c, On cs goal → (g goal c).Keeps cs)
include hg

@[spec] theorem declarator_keeps (c : Context) (inHead : Bool) : (g.declarator c inHead).Keeps cs := by
  unfold declarator
  mvcgen [hg]
  all_goals grind

@[spec] theorem declarationList_keeps (c : Context) (inHead : Bool) :
    (g.declarationList c inHead).Keeps cs := by
  unfold declarationList
  mvcgen [hg]
  all_goals grind

@[spec] theorem header_keeps (c : Context) : (g.header c).Keeps cs := by
  unfold header
  mvcgen [hg]
  all_goals grind

@[spec] theorem condition_keeps (c : Context) (withElse : Bool) :
    (g.condition c withElse).Keeps cs := by
  unfold condition
  mvcgen [hg]
  all_goals grind

@[spec] theorem loopTail_keeps (c : Context) : (g.loopTail c).Keeps cs := by
  unfold loopTail
  mvcgen [hg]
  all_goals grind

@[spec] theorem eachTail_keeps (c : Context) : (g.eachTail c).Keeps cs := by
  unfold eachTail
  mvcgen [hg]
  all_goals grind

@[spec] theorem loopHead_keeps (c : Context) : (g.loopHead c).Keeps cs := by
  unfold loopHead
  mvcgen [hg]
  all_goals grind [Node.on_of_toPattern?]

@[spec] theorem forStatement_keeps (c : Context) : (g.forStatement c).Keeps cs := by
  unfold forStatement
  mvcgen [hg]
  all_goals grind

@[spec] theorem doStatement_keeps (c : Context) : (g.doStatement c).Keeps cs := by
  unfold doStatement
  mvcgen [hg]
  all_goals grind

@[spec] theorem caseClause_keeps (c : Context) (hadDefault : Bool) :
    (g.caseClause c hadDefault).Keeps cs := by
  unfold caseClause
  mvcgen [hg]
  all_goals grind

@[spec] theorem caseClauses_keeps (c : Context) (fuel : Nat) (hadDefault : Bool) :
    (g.caseClauses c fuel hadDefault).Keeps cs := by
  induction fuel generalizing hadDefault with
  | zero =>
    unfold caseClauses
    mvcgen
  | succ fuel ih =>
    unfold caseClauses
    mvcgen [hg, ih]
    all_goals grind

@[spec] theorem switchStatement_keeps (c : Context) : (g.switchStatement c).Keeps cs := by
  unfold switchStatement
  mvcgen [hg]
  all_goals grind

@[spec] theorem catchClause_keeps (c : Context) : (g.catchClause c).Keeps cs := by
  unfold catchClause
  mvcgen [hg]
  all_goals grind

@[spec] theorem finallyClause_keeps (c : Context) : (g.finallyClause c).Keeps cs := by
  unfold finallyClause
  mvcgen [hg]
  all_goals grind

@[spec] theorem tryStatement_keeps (c : Context) : (g.tryStatement c).Keeps cs := by
  unfold tryStatement
  mvcgen [hg]
  all_goals grind

@[spec] theorem returnStatement_keeps (c : Context) : (g.returnStatement c).Keeps cs := by
  unfold returnStatement
  mvcgen [hg]
  all_goals grind

@[spec] theorem throwStatement_keeps (c : Context) : (g.throwStatement c).Keeps cs := by
  unfold throwStatement
  mvcgen [hg]
  all_goals grind

@[spec] theorem guarded_keeps (c : Context) : (g.guarded c).Keeps cs := by
  unfold guarded
  mvcgen [hg]
  all_goals grind

@[spec] theorem strayClause_keeps (c : Context) : (g.strayClause c).Keeps cs := by
  unfold strayClause
  mvcgen [hg]
  all_goals grind

@[spec] theorem expressionStatement_keeps (c : Context) : (g.expressionStatement c).Keeps cs := by
  unfold expressionStatement
  mvcgen [hg]
  all_goals grind

@[spec] theorem importStatement_keeps (c : Context) : (g.importStatement c).Keeps cs := by
  unfold importStatement
  mvcgen [hg]
  all_goals grind

@[spec] theorem statement_keeps (c : Context) (declarations : Bool) :
    (g.statement c declarations).Keeps cs := by
  unfold statement
  mvcgen [hg]
  all_goals grind

end

/-- However deep the grammar may nest, its parts keep to the places of the text. -/
theorem nested_keeps (n : Nat) (goal : Goal) (c : Context) (hgoal : On cs goal) :
    (nested n goal c).Keeps cs := by
  induction n generalizing goal c with
  | zero => exact fun s hs => hs
  | succ n ih =>
    cases goal with
    | assignment => exact assignment_keeps ih c
    | unary => exact unary_keeps ih c
    | operation left least => exact operation_keeps ih c (hgoal left least rfl) least
    | construction => exact construction_keeps ih c
    | leftHand => exact leftHand_keeps ih c
    | statement declarations => exact statement_keeps ih c declarations
    | condition withElse => exact condition_keeps ih c withElse
    | binding => exact binding_keeps ih c
    | element => exact element_keeps ih c

end Grammar

theorem statements_keeps {g : Grammar} (hg : ∀ goal c, On cs goal → (g goal c).Keeps cs) :
    (statements g).Keeps cs := by
  unfold statements
  mvcgen [hg]
  all_goals grind

/-- A first line for whoever runs the script is passed over. -/
theorem Cursor.On.skipHash {offset : Nat} {rest : List Char} (h : Cursor.On cs ⟨offset, rest⟩) :
    (match rest with
      | '#' :: '!' :: _ => (⟨offset, rest⟩ : Cursor).skipLine
      | _ => ⟨offset, rest⟩).On cs := by
  split
  · exact h.skipLine
  · exact h

theorem State.initial_on {offset : Nat} {rest : List Char} (h : Cursor.On cs ⟨offset, rest⟩) :
    (State.initial offset rest).On cs := by
  have hfirst := h.skipHash.skipBlanks true
  exact ⟨hfirst, h.boundary, (hfirst.skipMarks _).readToken⟩

theorem withoutMark_on (cs : List Char) : Cursor.On cs ⟨(withoutMark cs).1, (withoutMark cs).2⟩ := by
  unfold withoutMark
  split
  · exact (Cursor.On.start _).behind ['\uFEFF'] rfl
  · exact Cursor.On.start _

/-- All places of a script lie between two characters of its text. -/
theorem parse?_on {source : String} {program : Program} (h : parse? source = some program) :
    On source.toList program.body := by
  unfold parse? at h
  have hstart := withoutMark_on source.toList
  have hkeeps := statements_keeps
    (Grammar.nested_keeps (nestingBound (withoutMark source.toList).2.length)) _ (State.initial_on hstart)
  simp only [wp, PredTrans.apply] at hkeeps
  cases hrun : statements (Grammar.nested (nestingBound (withoutMark source.toList).2.length))
      (State.initial (withoutMark source.toList).1 (withoutMark source.toList).2) with
  | done body s =>
    simp only [hrun] at h hkeeps
    cases h
    exact hkeeps.2
  | stopped s =>
    simp only [hrun] at h
    cases h

/-- Every node of a script starts and ends between two characters of its text. -/
theorem parse?_boundary {source : String} {program : Program} (h : parse? source = some program)
    {n : Node} (hn : n ∈ program.nodes) :
    Text.Boundary source.toList n.span.start ∧ Text.Boundary source.toList n.span.stop := by
  obtain ⟨m, hm, hn⟩ := List.mem_flatMap.mp hn
  exact parse?_on h m hm n hn

end PageProbe.Script
