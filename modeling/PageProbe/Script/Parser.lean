import PageProbe.Script.Parser.Statement

/-!
`parse` reads a classic script and gives its statements. Scripts are refused only for errors that
leave no way to go on; what merely makes no sense, such as a label that is not there, is accepted.
-/

namespace PageProbe.Script

/-- The whole grammar, with at most `n` of its parts inside each other. -/
def Grammar.nested : Nat → Grammar
  | 0 => fun _ _ => Parser.fail
  | n + 1 => fun goal c =>
    let g : Grammar := fun goal c => Grammar.nested n goal c
    match goal with
    | .assignment => g.assignment c
    | .unary => g.unary c
    | .operation left least => g.operation c left least
    | .construction => g.construction c
    | .leftHand => g.leftHand c
    | .statement declarations => g.statement c declarations
    | .condition withElse => g.condition c withElse
    | .binding => g.binding c
    | .element => g.element c

/-- The statements of a script up to the end of its text. -/
def statements (g : Grammar) : Parser (List Node) := do
  let strict ← Grammar.atStrictDirective
  Parser.many do
    if ← Parser.atFinish then return none
    return some (← g (.statement true) { strict := strict })

/-- How deep the grammar may nest in a text of `n` characters: every part that holds another one
    reads a token of its own, or is one of a few steps that do not. -/
def nestingBound (n : Nat) : Nat := 8 * n + 32

/-- A parsed script. -/
structure Program where
  body : List Node
deriving Inhabited

/-- A byte order mark at the start of a text is no part of the script. Offsets count it. -/
def withoutMark : List Char → Nat × List Char
  | '\uFEFF' :: rest => (3, rest)
  | cs => (0, cs)

/-- The statements of a script, or nothing when it cannot be parsed. -/
def parse? (source : String) : Option Program :=
  let (skipped, cs) := withoutMark source.toList
  let g := Grammar.nested (nestingBound cs.length)
  match statements g (State.initial skipped cs) with
  | .done body _ => some ⟨body⟩
  | .stopped _ => none

end PageProbe.Script
