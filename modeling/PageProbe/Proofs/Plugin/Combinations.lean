import Mathlib.Data.List.Forall2
import Mathlib.Data.List.Perm.Subperm
import PageProbe.Plugin.Worker

namespace PageProbe

open Json (Value)

namespace GenerationMap

/-- Positions in ascending order, each once. -/
def Ascending (map : GenerationMap) : Prop := map.Pairwise (·.1 < ·.1)

theorem mem_insert {slot : Nat} {module : String} {map : GenerationMap} {e : Nat × String}
    (h : e ∈ map.insert slot module) : e = (slot, module) ∨ e ∈ map := by
  induction map with
  | nil => exact .inl (List.mem_singleton.mp h)
  | cons first rest ih =>
    rw [insert] at h
    split at h
    · exact (List.mem_cons.mp h).imp id (List.mem_cons_of_mem _)
    · split at h
      · exact List.mem_cons.mp h
      · rcases List.mem_cons.mp h with rfl | h
        · exact .inr List.mem_cons_self
        · exact (ih h).imp id (List.mem_cons_of_mem _)

theorem Ascending.insert {map : GenerationMap} (h : map.Ascending) (slot : Nat) (module : String) :
    (map.insert slot module).Ascending := by
  induction map with
  | nil => exact List.pairwise_singleton _ _
  | cons first rest ih =>
    obtain ⟨hfirst, hrest⟩ := List.pairwise_cons.mp h
    rw [GenerationMap.insert]
    split
    · next heq =>
      subst heq
      exact List.pairwise_cons.mpr ⟨hfirst, hrest⟩
    · next hne =>
      split
      · next hlt =>
        refine List.pairwise_cons.mpr ⟨fun e he => ?_, h⟩
        rcases List.mem_cons.mp he with rfl | he
        · exact hlt
        · exact Nat.lt_trans hlt (hfirst e he)
      · refine List.pairwise_cons.mpr ⟨fun e he => ?_, ih hrest⟩
        rcases mem_insert he with rfl | he
        · dsimp only
          omega
        · exact hfirst e he

/-- Whatever the entries and their order are, the map of them is in order. -/
theorem ofList_ascending (entries : List (Nat × String)) : (ofList entries).Ascending := by
  suffices ∀ map : GenerationMap, map.Ascending →
      (entries.foldl (fun m e => insert e.1 e.2 m) map).Ascending from this [] .nil
  induction entries with
  | nil => exact fun _ h => h
  | cons e entries ih => exact fun map h => ih _ (h.insert e.1 e.2)

end GenerationMap

namespace Combinations

/-- Of a combination every value comes from the column at its own index. -/
theorem mem_product {columns : List (List α)} {t : List α} :
    t ∈ product columns ↔ List.Forall₂ (· ∈ ·) t columns := by
  suffices ∀ tuples : List (List α),
      t ∈ columns.foldl (fun tuples column => tuples.flatMap fun t => column.map fun v => t ++ [v]) tuples ↔
        ∃ front ∈ tuples, ∃ back, t = front ++ back ∧ List.Forall₂ (· ∈ ·) back columns by
    simpa [product] using this [[]]
  induction columns with
  | nil => simp
  | cons column columns ih =>
    intro tuples
    rw [List.foldl_cons, ih]
    constructor
    · rintro ⟨front, hfront, back, rfl, hback⟩
      obtain ⟨first, hfirst, hnext⟩ := List.mem_flatMap.mp hfront
      obtain ⟨v, hv, rfl⟩ := List.mem_map.mp hnext
      exact ⟨first, hfirst, v :: back, List.append_assoc _ _ _, .cons hv hback⟩
    · rintro ⟨front, hfront, back, rfl, hback⟩
      cases hback with
      | @cons v _ back _ hv hback =>
        refine ⟨front ++ [v], ?_, back, by simp, hback⟩
        exact List.mem_flatMap.mpr ⟨front, hfront, List.mem_map.mpr ⟨v, hv, rfl⟩⟩

theorem getElem?_of_mem_product {columns : List (List α)} {t : List α} (h : t ∈ product columns) {k : Nat}
    {column : List α} (hk : columns[k]? = some column) : ∃ v ∈ column, t[k]? = some v := by
  have hvalues := mem_product.mp h
  clear h
  induction hvalues generalizing k with
  | nil => cases hk
  | cons hv _ ih =>
    cases k with
    | zero =>
      cases hk
      exact ⟨_, hv, rfl⟩
    | succ k => exact ih hk

/-- Batches that are in order stay as they are. -/
theorem byPosition_of_ascending {batches : List GeneratedBatch}
    (h : batches.Pairwise (·.id < ·.id)) : byPosition batches = batches := by
  induction batches with
  | nil => rfl
  | cons g rest ih =>
    obtain ⟨hfirst, hrest⟩ := List.pairwise_cons.mp h
    rw [byPosition, ih hrest]
    cases rest with
    | nil => rfl
    | cons next rest =>
      have hle : g.id ≤ next.id := Nat.le_of_lt (hfirst next List.mem_cons_self)
      rw [place, if_pos hle]

theorem accepts (generator : String) : brain.accepts generator = true := rfl

/-- Where the column of a position stands among columns in ascending order: behind those of earlier
    positions. -/
def columnOf (columns : List (Nat × α)) (slot : Nat) : Nat := columns.countP (·.1 < slot)

theorem getElem?_columnOf {columns : List (Nat × α)} (h : columns.Pairwise (·.1 < ·.1)) {slot : Nat} {a : α}
    (hmem : (slot, a) ∈ columns) : columns[columnOf columns slot]? = some (slot, a) := by
  induction columns with
  | nil => cases hmem
  | cons first rest ih =>
    obtain ⟨hfirst, hrest⟩ := List.pairwise_cons.mp h
    rw [columnOf, List.countP_cons]
    rcases List.mem_cons.mp hmem with rfl | hmem
    · have hnone : rest.countP (·.1 < slot) = 0 := by
        refine List.countP_eq_zero.mpr fun e he => ?_
        have hlt := hfirst e he
        simp only [decide_eq_true_eq]
        omega
      simp [hnone]
    · rw [if_pos (by simpa using hfirst _ hmem), List.getElem?_cons_succ]
      exact ih hrest hmem

/-- A column stands at its own position only if no earlier position is without one. -/
theorem columnOf_eq_iff {columns : List (Nat × α)} (h : columns.Pairwise (·.1 < ·.1)) {slot : Nat} :
    columnOf columns slot = slot ↔ ∀ j < slot, j ∈ columns.map (·.1) := by
  have hcount : columnOf columns slot = ((columns.map (·.1)).filter (· < slot)).length := by
    rw [← List.countP_eq_length_filter, List.countP_map]
    rfl
  have hnodup : ((columns.map (·.1)).filter (· < slot)).Nodup :=
    (List.pairwise_map.mpr (h.imp fun hlt => Nat.ne_of_lt hlt)).filter _
  have hmem (j : Nat) : j ∈ (columns.map (·.1)).filter (· < slot) ↔ j ∈ columns.map (·.1) ∧ j < slot := by
    rw [List.mem_filter, decide_eq_true_eq]
  rw [hcount]
  generalize (columns.map (·.1)).filter (· < slot) = below at *
  have hbelow : below.Subperm (List.range slot) :=
    hnodup.subperm fun j hj => List.mem_range.mpr ((hmem j).mp hj).2
  constructor
  · intro hlength j hj
    have hperm := hbelow.perm_of_length_le (Nat.le_of_eq (List.length_range.trans hlength.symm))
    exact ((hmem j).mp (hperm.mem_iff.mpr (List.mem_range.mpr hj))).1
  · intro hall
    have hrange : (List.range slot).Subperm below :=
      List.nodup_range.subperm fun j hj =>
        (hmem j).mpr ⟨hall j (List.mem_range.mp hj), List.mem_range.mp hj⟩
    have hle := hbelow.length_le
    have hge := hrange.length_le
    rw [List.length_range] at hle hge
    exact Nat.le_antisymm hle hge

end Combinations

/-- Generators that could be started for the positions of a map. -/
def Catalog.started (c : Catalog) (map : GenerationMap) : List (Nat × String × Generator) :=
  map.filterMap fun (slot, id) =>
    match c.generator id slot with
    | .ok g => some (slot, id, g)
    | .error _ => none

/-- The values that the generators for a map give for a batch of some size, with their positions. A
    position has none when its generator can not be started, or when it breaks down. -/
def Catalog.columns (c : Catalog) (map : GenerationMap) (batchSize : Nat) : List (Nat × List Value) :=
  (c.started map).filterMap fun (slot, _, g) => (g.generate [] batchSize []).map (slot, ·)

namespace Catalog

variable {c : Catalog} {map : GenerationMap} {batchSize : Nat}

theorem mem_started {slot : Nat} {id : String} {g : Generator} :
    (slot, id, g) ∈ c.started map ↔ (slot, id) ∈ map ∧ c.generator id slot = .ok g := by
  simp only [started, List.mem_filterMap]
  constructor
  · rintro ⟨⟨slot', id'⟩, hmem, h⟩
    dsimp only at h
    split at h
    · next g' hg =>
      cases h
      exact ⟨hmem, hg⟩
    · cases h
  · rintro ⟨hmem, hg⟩
    exact ⟨(slot, id), hmem, by simp only [hg]⟩

theorem mem_columns {slot : Nat} {values : List Value} :
    (slot, values) ∈ c.columns map batchSize ↔
      ∃ id g, (slot, id) ∈ map ∧ c.generator id slot = .ok g ∧
        g.generate [] batchSize [] = some values := by
  simp only [columns, List.mem_filterMap]
  constructor
  · rintro ⟨⟨slot', id, g⟩, hmem, h⟩
    obtain ⟨values', hvalues, heq⟩ := Option.map_eq_some_iff.mp h
    cases heq
    obtain ⟨hmap, hg⟩ := mem_started.mp hmem
    exact ⟨id, g, hmap, hg, hvalues⟩
  · rintro ⟨id, g, hmap, hg, hvalues⟩
    exact ⟨(slot, id, g), mem_started.mpr ⟨hmap, hg⟩, by rw [hvalues]; rfl⟩

theorem started_ascending (h : map.Ascending) : (c.started map).Pairwise (·.1 < ·.1) := by
  refine List.Pairwise.filterMap _ (fun a a' hlt b hb b' hb' => ?_) h
  dsimp only at hb hb'
  split at hb
  · split at hb'
    · cases hb
      cases hb'
      exact hlt
    · cases hb'
  · cases hb

theorem columns_ascending (h : map.Ascending) : (c.columns map batchSize).Pairwise (·.1 < ·.1) := by
  refine List.Pairwise.filterMap _ (fun a a' hlt b hb b' hb' => ?_) (started_ascending h)
  obtain ⟨_, _, rfl⟩ := Option.map_eq_some_iff.mp hb
  obtain ⟨_, _, rfl⟩ := Option.map_eq_some_iff.mp hb'
  exact hlt

end Catalog

namespace GeneratorWorker

/-- What a generator is given to do is announced, and answered unless it breaks down. -/
theorem readBatch_handle (id : String) (g : Generator) (r : GenerateRequest) :
    BrainWorker.readBatch ((GeneratorWorker.start id g).handle (.generate r)).2 =
      ([(GeneratorWorker.start id g).announce r],
        (g.generate [] r.batchSize r.args).map (⟨r.id, ·⟩)) := by
  simp only [handle, start, Bool.not_true, Bool.false_eq_true, if_false]
  cases g.generate [] r.batchSize r.args with
  | none => rfl
  | some batch => rfl

end GeneratorWorker

namespace BrainWorker

/-- Messages that only tell what happens do not hide the result behind them. -/
theorem find?_result {before : List Response} (h : ∀ m ∈ before, m.isDebug = true) (body : ResponseBody) :
    (before ++ [Response.result body]).find? (!·.isDebug) = some (Response.result body) := by
  have hnone : before.find? (!·.isDebug) = none :=
    List.find?_eq_none.mpr fun m hm => by simp [h m hm]
  rw [List.find?_append, hnone]
  rfl

/-- Workers that have just been started. -/
def fresh (started : List (Nat × String × Generator)) : List (Nat × GeneratorWorker) :=
  started.map fun (slot, id, g) => (slot, GeneratorWorker.start id g)

/-- The batches of generators that are asked for the first time. -/
def firstBatches (started : List (Nat × String × Generator)) (batchSize : Nat) : List GeneratedBatch :=
  started.filterMap fun (slot, _, g) => (g.generate [] batchSize []).map (⟨slot, ·⟩)

/-- All requests to one position are alike. -/
theorem find?_plan {task : BrainTask} {slot : Nat} (h : slot ∈ task.slots) :
    (Combinations.plan task).find? (·.id == slot) = some ⟨slot, task.batchSize, []⟩ := by
  have hthere : (task.slots.find? (· == slot)) = some slot := by
    cases hfind : task.slots.find? (· == slot) with
    | none => simpa using List.find?_eq_none.mp hfind slot h
    | some s =>
      obtain rfl : s = slot := by simpa using List.find?_some hfind
      rfl
  rw [Combinations.plan, List.find?_map]
  exact congrArg (Option.map _) hthere

/-- Every generator that answers gives its batch. Everything else that is told does not count as a
    result. -/
theorem collect_fresh {requests : List GenerateRequest} {batchSize : Nat}
    {started : List (Nat × String × Generator)}
    (h : ∀ s ∈ started, requests.find? (·.id == s.1) = some ⟨s.1, batchSize, []⟩) :
    (collect requests (fresh started)).2 = firstBatches started batchSize ∧
      ∀ m ∈ (collect requests (fresh started)).1, m.isDebug = true := by
  induction started with
  | nil => exact ⟨rfl, fun m hm => absurd hm List.not_mem_nil⟩
  | cons first rest ih =>
    obtain ⟨slot, id, g⟩ := first
    obtain ⟨hbatches, hdebug⟩ := ih fun s hs => h s (List.mem_cons_of_mem _ hs)
    have hrequest := h _ List.mem_cons_self
    dsimp only at hrequest
    rw [fresh, List.map_cons, ← fresh, collect]
    simp only [hrequest, GeneratorWorker.readBatch_handle, hbatches]
    constructor
    · rw [firstBatches, firstBatches, List.filterMap_cons]
      dsimp only
      cases g.generate [] batchSize [] with
      | none => rfl
      | some batch => rfl
    · intro m hm
      rcases List.mem_append.mp hm with hm | hm
      · rw [List.mem_singleton.mp hm]
        rfl
      · exact hdebug m hm

/-- A brain of combinations starts whatever generators the catalog knows. -/
theorem startGenerator_combinations (id : String) (c : Catalog) (slot : Nat) (generator : String) :
    (BrainWorker.start id Combinations.brain c).startGenerator slot generator =
      match c.generator generator slot with
      | .ok g => .ok (GeneratorWorker.start generator g)
      | .error u => .error u.message := by
  rw [startGenerator]
  exact if_pos (Combinations.accepts generator)

theorem slots_initialise (id : String) (c : Catalog) (map : GenerationMap) :
    ((BrainWorker.start id Combinations.brain c).initialise map).1.slots = fresh (c.started map) := by
  change List.filterMap _ (map.map _) = _
  rw [List.filterMap_map, fresh, Catalog.started, List.map_filterMap]
  refine List.filterMap_congr fun (slot, generator) _ => ?_
  simp only [Function.comp_def, startGenerator_combinations]
  cases c.generator generator slot with
  | ok g => rfl
  | error u => rfl

/-- The answer tells which generators could be started. -/
theorem find?_initialise (id : String) (c : Catalog) (map : GenerationMap) :
    ((BrainWorker.start id Combinations.brain c).initialise map).2.find? (!·.isDebug) =
      some (Response.result (.mark ((c.started map).map fun s => (s.1, s.2.1)))) := by
  have hmark : (((BrainWorker.start id Combinations.brain c).initialise map).1.slots.map
      fun s => (s.1, s.2.moduleId)) = (c.started map).map fun s => (s.1, s.2.1) := by
    rw [slots_initialise, fresh, List.map_map]
    rfl
  rw [← hmark]
  refine find?_result (fun m hm => ?_) _
  obtain ⟨⟨_, _, attempt⟩, _, h⟩ := List.mem_filterMap.mp hm
  cases attempt with
  | ok _ => cases h
  | error why =>
    obtain rfl := Option.some.inj h
    rfl

/-- The answer to a request of a batch are the combinations of what the generators give. -/
theorem find?_makeBatch {w : BrainWorker} {started : List (Nat × String × Generator)}
    (hbrain : w.brain = Combinations.brain) (hslots : w.slots = fresh started) (r : GenerationRequest) :
    (w.makeBatch r).2.find? (!·.isDebug) =
      some (Response.result (.assembled (Combinations.assemble (firstBatches started r.batchSize)))) := by
  obtain ⟨task, htask⟩ : ∃ task : BrainTask, task = ⟨w.slots.map (·.1), r.batchSize, r.previousBatch⟩ :=
    ⟨_, rfl⟩
  -- every request goes to a position with a generator, so all of them are sent
  have hsent : (Combinations.plan task).filter (fun p => w.slots.any fun s => s.1 == p.id) =
      Combinations.plan task := by
    refine List.filter_eq_self.mpr fun p hp => ?_
    rw [Combinations.plan, htask] at hp
    obtain ⟨slot, hslot, rfl⟩ := List.mem_map.mp hp
    obtain ⟨s, hs, rfl⟩ := List.mem_map.mp hslot
    exact List.any_eq_true.mpr ⟨s, hs, beq_self_eq_true _⟩
  obtain ⟨hbatches, hdebug⟩ : (collect (Combinations.plan task) w.slots).2 =
      firstBatches started r.batchSize ∧
        ∀ m ∈ (collect (Combinations.plan task) w.slots).1, m.isDebug = true := by
    rw [hslots]
    refine collect_fresh fun s hs => ?_
    have hslot : s.1 ∈ task.slots := by
      rw [htask, hslots, fresh, List.map_map]
      exact List.mem_map_of_mem hs
    rw [find?_plan hslot, htask]
  rw [makeBatch, ← htask]
  simp only [hbrain, Combinations.brain, hsent, hbatches]
  refine find?_result (fun m hm => ?_) _
  rcases List.mem_append.mp hm with hm | hm
  · exact hdebug m hm
  · rw [missing] at hm
    split at hm
    · exact absurd hm List.not_mem_nil
    · rw [List.mem_singleton.mp hm]
      rfl

/-- Positions in order give columns in order. -/
theorem assemble_firstBatches {c : Catalog} {map : GenerationMap} (h : map.Ascending) (batchSize : Nat) :
    Combinations.assemble (firstBatches (c.started map) batchSize) =
      Combinations.product ((c.columns map batchSize).map (·.2)) := by
  have hbatches : firstBatches (c.started map) batchSize =
      (c.columns map batchSize).map fun (slot, values) => ⟨slot, values⟩ := by
    rw [firstBatches, Catalog.columns, List.map_filterMap]
    refine List.filterMap_congr fun (slot, _, g) _ => ?_
    rw [Option.map_map]
    rfl
  have horder : (firstBatches (c.started map) batchSize).Pairwise (·.id < ·.id) := by
    rw [hbatches, List.pairwise_map]
    exact Catalog.columns_ascending h
  rw [Combinations.assemble, Combinations.byPosition_of_ascending horder, hbatches, List.map_map]
  rfl

end BrainWorker
end PageProbe
