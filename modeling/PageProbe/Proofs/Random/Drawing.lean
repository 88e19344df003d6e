import PageProbe.Random.Words

namespace PageProbe.Random

variable {σ α β : Type} {P : α → Prop} {Q : β → Prop}

/-- Whatever a source is at, what is drawn from it has some property. -/
def Draws (P : α → Prop) (draw : StateM σ α) : Prop := ∀ s, P (draw.run s).1

namespace Draws

theorem pure {a : α} (h : P a) : Draws P (pure a : StateM σ α) := fun _ => h

theorem bind {x : StateM σ α} {f : α → StateM σ β} (hx : Draws P x) (hf : ∀ a, P a → Draws Q (f a)) :
    Draws Q (x >>= f) := fun s => hf _ (hx s) (x.run s).2

theorem any (x : StateM σ α) : Draws (fun _ => True) x := fun _ => trivial

/-- As many draws as are asked for, each with the property of one. -/
theorem times {draw : StateM σ α} (h : Draws P draw) (n : Nat) :
    Draws (fun drawn => drawn.length = n ∧ ∀ a ∈ drawn, P a) (times n draw) := by
  induction n with
  | zero => exact pure ⟨rfl, nofun⟩
  | succ n ih =>
    refine h.bind fun a ha => ih.bind fun drawn hdrawn => pure ⟨congrArg (· + 1) hdrawn.1, ?_⟩
    intro b hb
    rcases List.mem_cons.mp hb with rfl | hb
    · exact ha
    · exact hdrawn.2 b hb

end Draws

/-- Some draws and then some more are that many draws together. -/
theorem times_add (m n : Nat) (draw : StateM σ α) :
    times (m + n) draw = do
      let first ← times m draw
      let second ← times n draw
      return first ++ second := by
  induction m with
  | zero => simp [times]
  | succ m ih => simp [Nat.succ_add, times, ih]

theorem run_times_add (m n : Nat) (draw : StateM σ α) (s : σ) :
    (times (m + n) draw).run s =
      (((times m draw).run s).1 ++ ((times n draw).run ((times m draw).run s).2).1,
        ((times n draw).run ((times m draw).run s).2).2) := by
  rw [times_add]
  rfl

/-- As many values of a kind are drawn as are asked for, and it does not matter in how many goes. -/
structure InRow (P : α → Prop) (draw : StateM σ α) : Prop where
  drawn : ∀ n, Draws (fun drawn => drawn.length = n ∧ ∀ a ∈ drawn, P a) (times n draw)
  inOneGo : ∀ m n, times (m + n) draw = do
    let first ← times m draw
    let second ← times n draw
    return first ++ second

theorem Draws.inRow {draw : StateM σ α} (h : Draws P draw) : InRow P draw :=
  ⟨h.times, fun m n => times_add m n draw⟩

/-- A product with a word is at most the one with the greatest word, which is `n` short of `n` times all
    words. -/
theorem scale_le (n : Nat) (w : UInt32) :
    (scale n w).1 * Nat.pow 2 32 + (scale n w).2 + n ≤ Nat.pow 2 32 * n := by
  have hproduct : (scale n w).1 * Nat.pow 2 32 + (scale n w).2 = w.toNat * n := Nat.div_add_mod' _ _
  have hword : w.toNat + 1 ≤ Nat.pow 2 32 := w.toNat_lt
  calc (scale n w).1 * Nat.pow 2 32 + (scale n w).2 + n
      = (w.toNat + 1) * n := by rw [hproduct, Nat.succ_mul]
    _ ≤ Nat.pow 2 32 * n := Nat.mul_le_mul_right n hword

theorem scale_lt {n : Nat} (hn : 0 < n) (w : UInt32) : (scale n w).1 < n := by
  have hle := scale_le n w
  simp only [Nat.pow_eq, Nat.reducePow] at hle
  omega

/-- Where a second word can make a number greater by one, there is room for it. The greatest number has a
    rest of at most `2^32 - n`, and for that no second word is drawn. -/
theorem scale_succ_lt {n : Nat} {w : UInt32} (hlow : (scale n w).2 > Nat.pow 2 32 - n) :
    (scale n w).1 + 1 < n := by
  have hle := scale_le n w
  simp only [Nat.pow_eq, Nat.reducePow] at hle hlow
  omega

variable [WordSource σ]

theorem below_draws {n : Nat} (hn : 0 < n) : Draws (σ := σ) (· < n) (below n) := by
  refine (Draws.any word).bind fun w _ => ?_
  dsimp only
  split
  · next hlow =>
    refine (Draws.any word).bind fun _ _ => ?_
    split
    · exact Draws.pure (scale_succ_lt hlow)
    · exact Draws.pure (scale_lt hn w)
  · exact Draws.pure (scale_lt hn w)

/-- A length is drawn, and as many characters as it says beside the least number of them. -/
theorem ofList_draws {P : Char → Prop} {letter : StateM σ Char} (h : Draws P letter) {n : Nat} (hn : 0 < n)
    (least : Nat) :
    Draws (σ := σ) (fun t => least ≤ t.length ∧ t.length < least + n ∧ ∀ c ∈ t.toList, P c) (do
      let length ← below n
      return String.ofList (← times (length + least) letter)) := by
  refine (below_draws hn).bind fun length hlength => ?_
  refine (h.times (length + least)).bind fun cs ⟨hcs, hall⟩ => Draws.pure ?_
  rw [String.length_ofList, String.toList_ofList, hcs]
  exact ⟨Nat.le_add_left _ _, by omega, hall⟩

/-- Wherever a source is at, the index that is drawn for a table names an entry of it, and that entry is
    what is picked. -/
def InBounds (σ : Type) [WordSource σ] (items : List α) : Prop :=
  ∀ (s : σ) (default : α), ∃ (i : Nat) (h : i < items.length),
    ((below items.length).run s).1 = i ∧ ((pick items default).run s).1 = items[i]

theorem inBounds {items : List α} (hitems : items ≠ []) : InBounds σ items := by
  intro s default
  have hi := below_draws (List.length_pos_iff.mpr hitems) s
  refine ⟨((below items.length).run s).1, hi, rfl, ?_⟩
  change (items[((below items.length).run s).1]?).getD default = _
  rw [List.getElem?_eq_getElem hi]
  rfl

theorem pick_draws {items : List α} (hitems : items ≠ []) (default : α) :
    Draws (σ := σ) (· ∈ items) (pick items default) := by
  intro s
  obtain ⟨i, hi, -, hpicked⟩ := inBounds hitems s default
  rw [hpicked]
  exact List.getElem_mem hi

end PageProbe.Random
