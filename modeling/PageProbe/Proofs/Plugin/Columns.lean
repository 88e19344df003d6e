import Mathlib.Algebra.Group.Nat.Defs
import Mathlib.Data.List.Induction
import PageProbe.Proofs.Plugin.Combinations

namespace PageProbe.Combinations

open Json (Value)

/-- Where an entry comes from when every element of a list is replaced by equally many. -/
theorem getElem?_flatMap_of_length {f : α → List β} {n : Nat} (hf : ∀ a, (f a).length = n)
    (l : List α) (i : Nat) : (l.flatMap f)[i]? = l[i / n]?.bind fun a => (f a)[i % n]? := by
  induction l generalizing i with
  | nil => rfl
  | cons a rest ih =>
    rw [List.flatMap_cons]
    by_cases hi : i < n
    · rw [List.getElem?_append_left (by rwa [hf]), Nat.div_eq_of_lt hi, Nat.mod_eq_of_lt hi]
      rfl
    · have hle : n ≤ i := Nat.le_of_not_lt hi
      rw [List.getElem?_append_right (by rwa [hf]), hf, ih, Nat.mod_eq_sub_mod hle]
      by_cases hn : n = 0
      · -- Nothing is left of the list, whatever it was.
        have hnil (a : α) : f a = [] := List.length_eq_zero_iff.mp ((hf a).trans hn)
        simp [hnil]
      · rw [Nat.div_eq_sub_div (Nat.pos_of_ne_zero hn) hle, List.getElem?_cons_succ]

theorem product_concat (columns : List (List α)) (column : List α) :
    product (columns ++ [column]) =
      (product columns).flatMap fun t => column.map fun v => t ++ [v] := by
  rw [product, List.foldl_append]
  rfl

theorem length_product (columns : List (List α)) :
    (product columns).length = (columns.map List.length).prod := by
  induction columns using List.reverseRecOn with
  | nil => rfl
  | append_singleton columns column ih =>
    rw [product_concat, List.length_flatMap, List.map_append, List.prod_append, ← ih]
    simp

/-- A combination by its number. Its entry in a column is found by the number of combinations that the
    columns behind it make. -/
theorem getElem?_product (columns : List (List α)) {i : Nat} (hi : i < (columns.map List.length).prod) :
    ∃ t, (product columns)[i]? = some t ∧ t.length = columns.length ∧
      ∀ (j : Nat) (column : List α), columns[j]? = some column →
        t[j]? = column[i / ((columns.drop (j + 1)).map List.length).prod % column.length]? := by
  induction columns using List.reverseRecOn generalizing i with
  | nil =>
    obtain rfl : i = 0 := Nat.lt_one_iff.mp hi
    exact ⟨[], rfl, rfl, nofun⟩
  | append_singleton columns last ih =>
    rw [List.map_append, List.prod_append, List.map_singleton, List.prod_singleton] at hi
    have hlast : 0 < last.length := Nat.pos_of_ne_zero fun h => by simp [h] at hi
    obtain ⟨t, ht, hlength, hentries⟩ := ih ((Nat.div_lt_iff_lt_mul hlast).mpr hi)
    obtain ⟨v, hv⟩ : ∃ v, last[i % last.length]? = some v :=
      ⟨_, List.getElem?_eq_getElem (Nat.mod_lt i hlast)⟩
    refine ⟨t ++ [v], ?_, by simp [hlength], fun j column hj => ?_⟩
    · rw [product_concat, getElem?_flatMap_of_length (n := last.length) (by simp), ht]
      simp [hv]
    · rcases Nat.lt_or_ge j columns.length with hlt | hge
      · -- An earlier column: the numbers of the last one are divided away first.
        rw [List.getElem?_append_left hlt] at hj
        rw [List.getElem?_append_left (hlength ▸ hlt), hentries j column hj,
          List.drop_append_of_le_length hlt, List.map_append, List.prod_append, List.map_singleton,
          List.prod_singleton, Nat.div_div_eq_div_mul, Nat.mul_comm]
      · rw [List.getElem?_append_right hge] at hj
        obtain ⟨hat, rfl⟩ : j - columns.length = 0 ∧ last = column := by
          cases hd : j - columns.length with
          | zero => simpa [hd] using hj
          | succ d => simp [hd] at hj
        obtain rfl : j = columns.length := by omega
        rw [← hlength, List.getElem?_concat_length, ← hv, List.drop_eq_nil_of_le (by simp [hlength])]
        simp

theorem place_perm (g : GeneratedBatch) (batches : List GeneratedBatch) :
    (place g batches).Perm (g :: batches) := by
  induction batches with
  | nil => exact .refl _
  | cons first rest ih =>
    rw [place]
    split
    · exact .refl _
    · exact (ih.cons first).trans (.swap g first rest)

theorem byPosition_perm (batches : List GeneratedBatch) : (byPosition batches).Perm batches := by
  induction batches with
  | nil => exact .refl _
  | cons g rest ih => exact (place_perm g (byPosition rest)).trans (ih.cons g)

/-- A batch of a new position comes between the earlier positions and the later ones. -/
theorem place_ascending {g : GeneratedBatch} {batches : List GeneratedBatch}
    (h : batches.Pairwise (·.id < ·.id)) (hnew : ∀ b ∈ batches, b.id ≠ g.id) :
    (place g batches).Pairwise (·.id < ·.id) := by
  induction batches with
  | nil => exact List.pairwise_singleton _ _
  | cons first rest ih =>
    obtain ⟨hfirst, hrest⟩ := List.pairwise_cons.mp h
    have hne := hnew first List.mem_cons_self
    rw [place]
    split
    · next hle =>
      have hlt : g.id < first.id := Nat.lt_of_le_of_ne hle hne.symm
      refine List.pairwise_cons.mpr ⟨fun b hb => ?_, h⟩
      rcases List.mem_cons.mp hb with rfl | hb
      · exact hlt
      · exact Nat.lt_trans hlt (hfirst b hb)
    · next hle =>
      refine List.pairwise_cons.mpr ⟨fun b hb => ?_, ih hrest fun b hb => hnew b (List.mem_cons_of_mem _ hb)⟩
      rcases List.mem_cons.mp ((place_perm g rest).mem_iff.mp hb) with rfl | hb
      · exact Nat.lt_of_not_le hle
      · exact hfirst b hb

theorem byPosition_ascending {batches : List GeneratedBatch} (h : (batches.map (·.id)).Nodup) :
    (byPosition batches).Pairwise (·.id < ·.id) := by
  induction batches with
  | nil => exact .nil
  | cons g rest ih =>
    obtain ⟨hg, hrest⟩ := List.nodup_cons.mp h
    refine place_ascending (ih hrest) fun b hb heq => hg ?_
    exact List.mem_map.mpr ⟨b, (byPosition_perm rest).mem_iff.mp hb, heq⟩

/-- Batches of different positions have one order. -/
theorem byPosition_eq_of_perm {batches columns : List GeneratedBatch} (hperm : columns.Perm batches)
    (horder : columns.Pairwise (·.id < ·.id)) : byPosition batches = columns := by
  have hdistinct : (batches.map (·.id)).Nodup :=
    (hperm.map (·.id)).nodup_iff.mp (List.pairwise_map.mpr (horder.imp Nat.ne_of_lt))
  refine ((byPosition_perm batches).trans hperm.symm).eq_of_pairwise (fun a b _ _ hab hba => ?_)
    (byPosition_ascending hdistinct) horder
  exact absurd (Nat.lt_trans hab hba) (Nat.lt_irrefl _)

/-- Batches of different positions, in any order, make the combinations of the columns in the order of
    their positions. There are as many of them as the product of all sizes says, so that there is one
    without any batches, and none if some batch is empty. Each takes one value from every column, by the
    law by which a number has its digits. -/
theorem assemble_combinations {generated : List GeneratedBatch} (hdistinct : (generated.map (·.id)).Nodup) :
    (∀ other : List GeneratedBatch, other.Perm generated → assemble other = assemble generated) ∧
    ∃ columns : List GeneratedBatch, columns.Perm generated ∧ columns.Pairwise (·.id < ·.id) ∧
      (assemble generated).length = (columns.map (·.batch.length)).prod ∧
      ∀ i < (columns.map (·.batch.length)).prod, ∃ t, (assemble generated)[i]? = some t ∧
        t.length = columns.length ∧
        ∀ (j : Nat) (column : GeneratedBatch), columns[j]? = some column →
          ∃ v, t[j]? = some v ∧
            column.batch[i / ((columns.drop (j + 1)).map (·.batch.length)).prod %
              column.batch.length]? = some v := by
  have horder := byPosition_ascending hdistinct
  have hsizes (columns : List GeneratedBatch) :
      (columns.map (·.batch.length)).prod = ((columns.map (·.batch)).map List.length).prod := by
    rw [List.map_map]
    rfl
  refine ⟨fun other hother => ?_, byPosition generated, byPosition_perm generated, horder, ?_, ?_⟩
  · have hsame := byPosition_eq_of_perm ((byPosition_perm generated).trans hother.symm) horder
    rw [assemble, hsame, assemble]
  · rw [hsizes]
    exact length_product _
  · intro i hi
    rw [hsizes] at hi
    obtain ⟨t, ht, hlength, hentries⟩ := getElem?_product _ hi
    refine ⟨t, ht, by simpa using hlength, fun j column hj => ?_⟩
    have hlt : j < t.length := by
      rw [hlength, List.length_map]
      exact (List.getElem?_eq_some_iff.mp hj).1
    refine ⟨t[j], List.getElem?_eq_getElem hlt, ?_⟩
    rw [hsizes, List.map_drop, ← hentries j column.batch (by rw [List.getElem?_map, hj]; rfl)]
    exact List.getElem?_eq_getElem hlt

theorem assemble_combinations_swapped :
    let batch (id : Nat) (texts : List String) : GeneratedBatch := ⟨id, texts.map Value.string⟩
    ([batch 1 ["x", "y"], batch 0 ["a"]].map (·.id)).Nodup ∧
      assemble [batch 0 ["a"], batch 1 ["x", "y"]] = assemble [batch 1 ["x", "y"], batch 0 ["a"]] := by
  intro batch
  have hdistinct : ([batch 1 ["x", "y"], batch 0 ["a"]].map (·.id)).Nodup := by decide
  exact ⟨hdistinct, (assemble_combinations hdistinct).1 _ (.swap _ _ [])⟩

end PageProbe.Combinations
