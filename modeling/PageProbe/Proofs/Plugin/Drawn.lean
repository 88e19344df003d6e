import PageProbe.Plugin.Catalog
import PageProbe.Proofs.Random.Drawing

namespace PageProbe

open Json (Value)
open PageProbe.Random

/-- A generator of texts of some kind, which hands them out in one row however many are asked for at a
    time. Checks of the generator and batches with arguments may have come before. -/
structure Generator.Yields (P : String → Prop) (g : Generator) : Prop where
  texts : ∀ calls n, ∃ texts : List String,
    g.generate calls n [] = some (texts.map .string) ∧ texts.length = n ∧ ∀ t ∈ texts, P t
  inOneRow : ∀ calls m n, ∃ first second,
    g.generate calls m [] = some first ∧ g.generate (calls ++ [.generate m []]) n [] = some second ∧
      g.generate calls (m + n) [] = some (first ++ second)

/-- The number of values drawn by a plain batch is added to that of the calls before it. -/
theorem GeneratorCall.drawnByAll_concat (calls : List GeneratorCall) (n : Nat) :
    drawnByAll (calls ++ [.generate n []]) = drawnByAll calls + n := by
  induction calls with
  | nil => exact (Nat.add_comm n 0 : drawnByAll [.generate n []] = _)
  | cons c calls ih => rw [List.cons_append, drawnByAll, ih, drawnByAll, Nat.add_assoc]

section Values

variable {σ : Type} [WordSource σ]

/-- What is drawn from a place behind the first values stands behind them. -/
theorem drawnValues_eq (draw : StateM σ String) (source : σ) (start count : Nat) :
    drawnValues draw source start count =
      ((times count draw).run ((times start draw).run source).2).1.map .string := rfl

theorem drawnValues_add (draw : StateM σ String) (source : σ) (start m n : Nat) :
    drawnValues draw source start (m + n) =
      drawnValues draw source start m ++ drawnValues draw source (start + m) n := by
  rw [drawnValues_eq, drawnValues_eq, drawnValues_eq, run_times_add, run_times_add, List.map_append]

end Values

theorem Generator.ofDraw_yields {P : String → Prop} {draw : StateM Stream String} (h : InRow P draw)
    (name description : String) (seed : Nat) : (ofDraw name description draw seed).Yields P := by
  let source := Stream.ofSeed (UInt64.ofNat seed)
  have hgenerate (calls : List GeneratorCall) (n : Nat) :
      (ofDraw name description draw seed).generate calls n [] =
        some (drawnValues draw source (GeneratorCall.drawnByAll calls) n) := rfl
  constructor
  · intro calls n
    let place := ((times (GeneratorCall.drawnByAll calls) draw).run source).2
    obtain ⟨hlength, hshape⟩ := h.drawn n place
    exact ⟨((times n draw).run place).1, hgenerate calls n, hlength, hshape⟩
  · intro calls m n
    refine ⟨_, _, hgenerate calls m, hgenerate _ n, ?_⟩
    rw [hgenerate, GeneratorCall.drawnByAll_concat, drawnValues_add]

namespace SpecialChars

/-- One to eight characters, all of the alphabet. -/
structure IsText (t : String) : Prop where
  nonempty : 1 ≤ t.length
  short : t.length ≤ 8
  special : ∀ c ∈ t.toList, c ∈ alphabet

theorem alphabet_ne_nil : alphabet ≠ [] := List.cons_ne_nil _ _

variable {σ : Type} [WordSource σ]

theorem text_draws : Draws (σ := σ) IsText text := by
  intro source
  obtain ⟨hnonempty, hshort, hspecial⟩ :=
    ofList_draws (pick_draws alphabet_ne_nil '<') (show 0 < maxLength by decide) 1 source
  exact ⟨hnonempty, Nat.le_of_lt_succ hshort, hspecial⟩

end SpecialChars

namespace BrokenHtml

/-- A tag, or three to eight small letters with a tag behind them. -/
inductive IsText : String → Prop where
  | tag {tag : String} (htag : tag ∈ tags) : IsText tag
  | glued {word tag : String} (hlong : 3 ≤ word.length) (hshort : word.length ≤ 8)
      (hletters : ∀ c ∈ word.toList, 'a' ≤ c ∧ c ≤ 'z') (htag : tag ∈ tags) : IsText (word ++ tag)

theorem tags_ne_nil : tags ≠ [] := List.cons_ne_nil _ _

theorem letter_range : ∀ i < 26, 'a' ≤ Char.ofNat ('a'.toNat + i) ∧ Char.ofNat ('a'.toNat + i) ≤ 'z' := by
  decide

variable {σ : Type} [WordSource σ]

theorem letter_draws : Draws (σ := σ) (fun c => 'a' ≤ c ∧ c ≤ 'z') letter :=
  (below_draws (by decide)).bind fun i hi => Draws.pure (letter_range i hi)

theorem word_draws : Draws (σ := σ)
    (fun w => 3 ≤ w.length ∧ w.length < 3 + 6 ∧ ∀ c ∈ w.toList, 'a' ≤ c ∧ c ≤ 'z') word :=
  ofList_draws letter_draws (by decide) 3

theorem text_draws : Draws (σ := σ) IsText text := by
  refine (pick_draws tags_ne_nil "<a>").bind fun tag htag => ?_
  refine (Draws.any coin).bind fun isGlued _ => ?_
  cases isGlued with
  | false => exact Draws.pure (.tag htag)
  | true =>
    exact word_draws.bind fun word ⟨hlong, hshort, hletters⟩ =>
      Draws.pure (.glued hlong (Nat.le_of_lt_succ hshort) hletters htag)

end BrokenHtml

/-- Whatever its words are, a source gives as many texts of either kind as are drawn from it, and it does
    not matter whether they are drawn in one go. Every index that is drawn for the characters or the tags
    names one of them. The generators of the two kinds that a catalog makes for its seed and a position
    draw their values in this way. Nothing is assumed of the sources, the seed or the position. -/
theorem Catalog.builtin_yields :
    (∀ (σ : Type) [WordSource σ],
      InRow (σ := σ) SpecialChars.IsText SpecialChars.text ∧ InBounds σ SpecialChars.alphabet ∧
        InRow (σ := σ) BrokenHtml.IsText BrokenHtml.text ∧ InBounds σ BrokenHtml.tags) ∧
    ∀ seed slot : Nat, ∃ special html : Generator,
      (builtin seed).generator SpecialChars.moduleId slot = .ok special ∧
      (builtin seed).generator BrokenHtml.moduleId slot = .ok html ∧
      special.Yields SpecialChars.IsText ∧ html.Yields BrokenHtml.IsText := by
  constructor
  · intro σ _
    exact ⟨SpecialChars.text_draws.inRow, inBounds SpecialChars.alphabet_ne_nil,
      BrokenHtml.text_draws.inRow, inBounds BrokenHtml.tags_ne_nil⟩
  · intro seed slot
    exact ⟨_, _, rfl, rfl, Generator.ofDraw_yields SpecialChars.text_draws.inRow _ _ _,
      Generator.ofDraw_yields BrokenHtml.text_draws.inRow _ _ _⟩

end PageProbe
