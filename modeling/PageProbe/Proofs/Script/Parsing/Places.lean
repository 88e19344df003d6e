import Mathlib
import PageProbe.Proofs.Script.Reading
import PageProbe.Proofs.Script.Subtree
import PageProbe.Script.Parser

/-!
Every place that a parser hands out lies between two characters of the text that it reads. The claim is
one Hoare triple for each part of the grammar: the state keeps its places whether the part comes to an
end or stops, and so does what it brings.
-/

namespace PageProbe.Script

open Std.Do
set_option mvcgen.warning false

namespace Parser

instance : LawfulMonad Parser := LawfulMonad.mk' Parser
  (fun x => by
    funext s
    simp only [Functor.map, Parser.bind]
    cases x s <;> rfl)
  (fun _ _ => rfl)
  (fun x f g => by
    funext s
    simp only [bind, Parser.bind]
    cases x s <;> rfl)

/-- A parser that stops is one that fails, in the state at which it stops. -/
instance : WPMonad Parser (.except PUnit (.arg State .pure)) where
  wp x :=
    { trans := fun Q s => match x s with
        | .done a s' => Q.1 a s'
        | .stopped s' => Q.2.1 ⟨⟩ s'
      conjunctiveRaw := by
        intro Q₁ Q₂
        apply SPred.bientails.of_eq
        ext s
        dsimp
        cases x s <;> simp }
  wp_pure a := by
    ext Q s
    rfl
  wp_bind x f := by
    ext Q s
    change (match (match x s with | .done a s' => f a s' | .stopped s' => .stopped s') with
      | .done a s' => Q.1 a s' | .stopped s' => Q.2.1 ⟨⟩ s').down ↔ (match x s with
      | .done a s' => (match f a s' with | .done a s' => Q.1 a s' | .stopped s' => Q.2.1 ⟨⟩ s')
      | .stopped s' => Q.2.1 ⟨⟩ s').down
    cases x s <;> rfl

end Parser

/-- Values that hold places of a text. -/
class Placed (α : Type) where
  /-- All the places lie between characters. -/
  On : List Char → α → Prop

variable {cs : List Char} {α β : Type}

instance : Placed Unit := ⟨fun _ _ => True⟩
instance : Placed Bool := ⟨fun _ _ => True⟩
instance : Placed String := ⟨fun _ _ => True⟩
instance : Placed Token := ⟨fun _ _ => True⟩
instance : Placed Span := ⟨fun cs s => Text.Boundary cs s.start ∧ Text.Boundary cs s.stop⟩
instance [Placed α] : Placed (List α) := ⟨fun cs as => ∀ a ∈ as, Placed.On cs a⟩
instance [Placed α] : Placed (Option α) := ⟨fun cs o => ∀ a ∈ o, Placed.On cs a⟩
instance [Placed α] [Placed β] : Placed (α × β) := ⟨fun cs p => Placed.On cs p.1 ∧ Placed.On cs p.2⟩
instance : Placed Node := ⟨fun cs n => ∀ m ∈ n.subtree, Placed.On cs m.span⟩

open Placed

@[grind =] theorem on_unit (a : Unit) : On cs a ↔ True := .rfl

@[grind =] theorem on_bool (a : Bool) : On cs a ↔ True := .rfl

@[grind =] theorem on_string (a : String) : On cs a ↔ True := .rfl

@[grind =] theorem on_token (a : Token) : On cs a ↔ True := .rfl

@[grind =, simp] theorem on_span (s : Span) :
    On cs s ↔ Text.Boundary cs s.start ∧ Text.Boundary cs s.stop := .rfl

@[simp] theorem on_list [Placed α] (as : List α) : On cs as ↔ ∀ a ∈ as, On cs a := .rfl

@[grind =] theorem on_nil [Placed α] : On cs ([] : List α) ↔ True := by simp

@[grind =] theorem on_cons [Placed α] (a : α) (as : List α) : On cs (a :: as) ↔ On cs a ∧ On cs as := by
  simp

@[grind =] theorem on_append [Placed α] (as bs : List α) :
    On cs (as ++ bs) ↔ On cs as ∧ On cs bs := by
  simp [or_imp, forall_and]

@[simp] theorem on_option [Placed α] (o : Option α) : On cs o ↔ ∀ a ∈ o, On cs a := .rfl

@[grind =] theorem on_flatten [Placed α] (ass : List (List α)) : On cs ass.flatten ↔ On cs ass := by
  simp only [on_list, List.forall_mem_flatten]

@[grind ←] theorem on_take [Placed α] {as : List α} (h : On cs as) (n : Nat) : On cs (as.take n) :=
  fun a ha => h a (List.mem_of_mem_take ha)

@[grind =] theorem on_none [Placed α] : On cs (none : Option α) ↔ True := by simp

@[grind =] theorem on_some [Placed α] (a : α) : On cs (some a) ↔ On cs a := by simp

@[grind =] theorem on_toList [Placed α] (o : Option α) : On cs o.toList ↔ On cs o := by
  simp

@[grind =, simp] theorem on_pair [Placed α] [Placed β] (a : α) (b : β) :
    On cs (a, b) ↔ On cs a ∧ On cs b := .rfl

/-- A state of a parser that reads a text. -/
structure State.On (cs : List Char) (s : State) : Prop where
  text : Cursor.On cs ⟨s.start, s.text⟩
  lastStop : Text.Boundary cs s.lastStop
  rest : Cursor.On cs ⟨s.stop, s.rest⟩

attribute [grind →] State.On.text State.On.lastStop State.On.rest

@[grind →] theorem State.On.start {s : State} (h : s.On cs) : Text.Boundary cs s.start := h.text.boundary

@[grind →] theorem State.On.stop {s : State} (h : s.On cs) : Text.Boundary cs s.stop := h.rest.boundary

@[grind =] theorem State.on_mk (token : Token) (start : Nat) (text : List Char) (stop : Nat)
    (newline : Bool) (lastStop : Nat) (rest : List Char) (arrowStart : Option Nat) :
    State.On cs ⟨token, start, text, stop, newline, lastStop, rest, arrowStart⟩ ↔
      Cursor.On cs ⟨start, text⟩ ∧ Text.Boundary cs lastStop ∧ Cursor.On cs ⟨stop, rest⟩ :=
  ⟨fun h => ⟨h.text, h.lastStop, h.rest⟩, fun h => ⟨h.1, h.2.1, h.2.2⟩⟩

theorem State.advance_on {s : State} (h : Cursor.On cs ⟨s.stop, s.rest⟩) : s.advance.On cs :=
  have hfirst := h.skipBlanks false
  ⟨hfirst, h.boundary, (hfirst.skipMarks _).readToken⟩

namespace Node

theorem on_iff (n : Node) : On cs n ↔ On cs n.span ∧ ∀ p ∈ n.parts, On cs p := by
  change (∀ m ∈ n.subtree, On cs m.span) ↔ On cs n.span ∧ ∀ p ∈ n.parts, ∀ m ∈ p.subtree, On cs m.span
  rw [subtree_eq n, List.forall_mem_cons, List.forall_mem_flatMap]

@[grind →] theorem on_of_span {n : Node} (h : On cs n) : On cs n.span := ((on_iff n).mp h).1

section
variable (s : Span) (n m : Node) (ns ms : List Node)

@[grind =] theorem on_name (text : String) : On cs (name s text) ↔ On cs s := by
  rw [on_iff]
  simp [parts, span]

@[grind =] theorem on_this : On cs (this s) ↔ On cs s := by
  rw [on_iff]
  simp [parts, span]

@[grind =] theorem on_quoted (value : String) : On cs (string s value) ↔ On cs s := by
  rw [on_iff]
  simp [parts, span]

@[grind =] theorem on_paren : On cs (paren s n) ↔ On cs s ∧ On cs n := by
  rw [on_iff]
  simp [parts, span]

@[grind =] theorem on_member (key : Option String) :
    On cs (member s n key ns) ↔ On cs s ∧ On cs n ∧ On cs ns := by
  rw [on_iff]
  simp [parts, span]

@[grind =] theorem on_call : On cs (call s n ns) ↔ On cs s ∧ On cs n ∧ On cs ns := by
  rw [on_iff]
  simp [parts, span]

@[grind =] theorem on_assign (isPlain : Bool) :
    On cs (assign s isPlain n m) ↔ On cs s ∧ On cs n ∧ On cs m := by
  rw [on_iff]
  simp [parts, span]

@[grind =] theorem on_object : On cs (object s ns) ↔ On cs s ∧ On cs ns := by
  rw [on_iff]
  simp [parts, span]

@[grind =] theorem on_property (key : Option String) :
    On cs (property s key ns n) ↔ On cs s ∧ On cs ns ∧ On cs n := by
  rw [on_iff]
  simp [parts, span, or_imp, forall_and]

@[grind =] theorem on_method (keyStart : Nat) (key : Option String) :
    On cs (method s keyStart key ns n) ↔ On cs s ∧ On cs ns ∧ On cs n := by
  rw [on_iff]
  simp [parts, span, or_imp, forall_and]

@[grind =] theorem on_spread : On cs (spread s n) ↔ On cs s ∧ On cs n := by
  rw [on_iff]
  simp [parts, span]

@[grind =] theorem on_function (named : Bool) :
    On cs (function s named ns ms) ↔ On cs s ∧ On cs ns ∧ On cs ms := by
  rw [on_iff]
  simp [parts, span, or_imp, forall_and]

@[grind =] theorem on_arrow : On cs (arrow s ns ms) ↔ On cs s ∧ On cs ns ∧ On cs ms := by
  rw [on_iff]
  simp [parts, span, or_imp, forall_and]

@[grind =] theorem on_functionDecl (text : String) :
    On cs (functionDecl s text n) ↔ On cs s ∧ On cs n := by
  rw [on_iff]
  simp [parts, span]

@[grind =] theorem on_varDecl : On cs (varDecl s ns) ↔ On cs s ∧ On cs ns := by
  rw [on_iff]
  simp [parts, span]

@[grind =] theorem on_declarator (init : Option Node) :
    On cs (declarator s n init) ↔ On cs s ∧ On cs n ∧ On cs init := by
  rw [on_iff]
  simp [parts, span]

@[grind =] theorem on_statement : On cs (statement s ns) ↔ On cs s ∧ On cs ns := by
  rw [on_iff]
  simp [parts, span]

@[grind =] theorem on_plain (form : Form) : On cs (plain form s ns) ↔ On cs s ∧ On cs ns := by
  rw [on_iff]
  simp [parts, span]

end
end Node

/-- A parser that reads a text keeps to its places, and so does what it brings. -/
abbrev Parser.Keeps (cs : List Char) [Placed α] (p : Parser α) : Prop :=
  Triple p (fun s => ⌜State.On cs s⌝)
    (post⟨fun a s => ⌜State.On cs s ∧ On cs a⌝, fun _ s => ⌜State.On cs s⌝⟩)

namespace Parser

@[spec] theorem get_spec (Q) : ⦃fun s => Q.1 s s⦄ Parser.get ⦃Q⦄ := by
  intro s h
  exact h

@[spec] theorem set_spec (s : State) (Q) : ⦃fun _ => Q.1 () s⦄ Parser.set s ⦃Q⦄ := by
  intro _ h
  exact h

@[spec] theorem fail_spec (Q) : ⦃fun s => Q.2.1 ⟨⟩ s⦄ (Parser.fail : Parser α) ⦃Q⦄ := by
  intro s h
  exact h

@[spec] theorem recover_spec [Placed α] {p : Parser α} (h : p.Keeps cs) : (recover p).Keeps cs := by
  intro s hs
  have hp := h s hs
  simp only [wp, recover, PredTrans.apply] at hp ⊢
  cases hrun : p s with
  | done a s' => 
    rw [hrun] at hp
    simpa using hp
  | stopped s' => 
    rw [hrun] at hp
    simpa using hp

@[spec] theorem repeatSome_spec [Placed α] {step : Parser (Option α)} (h : step.Keeps cs) (n : Nat) :
    (repeatSome n step).Keeps cs := by
  induction n with
  | zero =>
    unfold repeatSome
    mvcgen
  | succ n ih =>
    unfold repeatSome
    mvcgen [h, ih]
    all_goals grind

@[spec] theorem many_spec [Placed α] {step : Parser (Option α)} (h : step.Keeps cs) :
    (many step).Keeps cs := by
  unfold many
  mvcgen [h]

@[spec] theorem advance_spec :
    ⦃fun s => ⌜Cursor.On cs ⟨s.stop, s.rest⟩⌝⦄ Parser.advance
      ⦃post⟨fun _ s => ⌜s.On cs⌝, fun _ _ => ⌜False⌝⟩⦄ := by
  unfold advance
  mvcgen
  exact State.advance_on ‹_›

@[spec] theorem token_spec (Q) : ⦃fun s => Q.1 s.token s⦄ Parser.token ⦃Q⦄ := by
  unfold token
  mvcgen

@[spec] theorem position_spec (Q) : ⦃fun s => Q.1 s.start s⦄ Parser.position ⦃Q⦄ := by
  unfold position
  mvcgen

@[spec] theorem lastStop_spec (Q) : ⦃fun s => Q.1 s.lastStop s⦄ Parser.lastStop ⦃Q⦄ := by
  unfold lastStop
  mvcgen

@[spec] theorem newlineBefore_spec (Q) : ⦃fun s => Q.1 s.newline s⦄ Parser.newlineBefore ⦃Q⦄ := by
  unfold newlineBefore
  mvcgen

@[spec] theorem ahead_spec (Q) :
    ⦃fun s => Q.1 (s.advance.token, s.advance.newline) s⦄ Parser.ahead ⦃Q⦄ := by
  unfold ahead
  mvcgen

@[spec] theorem atMark_spec (m : String) (Q) :
    ⦃fun s => Q.1 (s.token == .punct m) s⦄ Parser.atMark m ⦃Q⦄ := by
  unfold atMark
  mvcgen

@[spec] theorem atWord_spec (w : String) (Q) :
    ⦃fun s => Q.1 (s.token == .word w false) s⦄ Parser.atWord w ⦃Q⦄ := by
  unfold atWord
  mvcgen

@[spec] theorem atFinish_spec (Q) : ⦃fun s => Q.1 (s.token == .finish) s⦄ Parser.atFinish ⦃Q⦄ := by
  unfold atFinish
  mvcgen

@[spec] theorem onlyIf_spec {p : Parser Bool} (b : Bool) (h : p.Keeps cs) : (onlyIf b p).Keeps cs := by
  unfold onlyIf
  mvcgen [h]

@[spec] theorem spanFrom_spec (start : Nat) :
    ⦃fun s => ⌜s.On cs ∧ Text.Boundary cs start⌝⦄ Parser.spanFrom start
      ⦃post⟨fun span s => ⌜s.On cs ∧ On cs span⌝, fun _ _ => ⌜False⌝⟩⦄ := by
  unfold spanFrom
  mvcgen
  grind

@[spec] theorem eatMark_spec (m : String) : (Parser.eatMark m).Keeps cs := by
  unfold eatMark
  mvcgen
  all_goals grind

@[spec] theorem eatWord_spec (w : String) : (Parser.eatWord w).Keeps cs := by
  unfold eatWord
  mvcgen
  all_goals grind

@[spec] theorem expectMark_spec (m : String) : (Parser.expectMark m).Keeps cs := by
  unfold expectMark
  mvcgen
  all_goals grind

@[spec] theorem expectWord_spec (w : String) : (Parser.expectWord w).Keeps cs := by
  unfold expectWord
  mvcgen
  all_goals grind

@[spec] theorem atSemicolon_spec : Parser.atSemicolon.Keeps cs := by
  unfold atSemicolon
  mvcgen

@[spec] theorem eatSemicolon_spec : Parser.eatSemicolon.Keeps cs := by
  unfold eatSemicolon
  mvcgen
  all_goals grind

@[spec] theorem expectSemicolon_spec : Parser.expectSemicolon.Keeps cs := by
  unfold expectSemicolon
  mvcgen
  all_goals grind

@[spec] theorem commaList_spec [Placed α] (close : String) {item : Parser α} (h : item.Keeps cs) :
    (commaList close item).Keeps cs := by
  unfold commaList
  mvcgen [h]
  all_goals grind

@[spec] theorem atReference_spec (c : Context) : (atReference c).Keeps cs := by
  unfold atReference
  mvcgen

@[spec] theorem bindingName_spec (c : Context) : (bindingName c).Keeps cs := by
  unfold bindingName
  mvcgen
  all_goals grind

@[spec] theorem propertyName_spec : propertyName.Keeps cs := by
  unfold propertyName
  mvcgen
  all_goals grind

end Parser

end PageProbe.Script
