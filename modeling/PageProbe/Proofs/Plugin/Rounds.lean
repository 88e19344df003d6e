import Mathlib.Data.List.Dedup
import PageProbe.Proofs.Plugin.Answers

namespace PageProbe

namespace GenerationMap

variable {marked : GenerationMap} {posted : List GenerateRequest}

theorem asked_ids : (marked.asked posted).map (·.2.id) =
    (marked.map (·.1)).filter fun slot => posted.any (·.id == slot) := by
  induction marked with
  | nil => rfl
  | cons entry rest ih =>
    obtain ⟨slot, module⟩ := entry
    have hany : posted.any (·.id == slot) = (posted.find? (·.id == slot)).isSome := List.isSome_find?.symm
    rw [List.map_cons, List.filter_cons, hany, ← ih]
    cases hfind : posted.find? (·.id == slot) with
    | none =>
      simp only [asked, List.filterMap_cons, hfind, Option.map_none]
      rfl
    | some r =>
      have hid : r.id = slot := by simpa using List.find?_some hfind
      simp only [asked, List.filterMap_cons, hfind, Option.map_some, List.map_cons, hid]
      rfl

/-- The batches are those of the positions that are asked, in their order. -/
theorem batches_ids {c : Catalog} {batches : List GeneratedBatch}
    (h : List.Forall₂ c.Gives (marked.asked posted) batches) :
    batches.map (·.id) = (marked.map (·.1)).filter fun slot => posted.any (·.id == slot) := by
  have hids : List.Forall₂ (· = ·) (batches.map (·.id)) ((marked.asked posted).map (·.2.id)) :=
    List.forall₂_map_left_iff.mpr (List.forall₂_map_right_iff.mpr
      (h.flip.imp fun _ _ hgives => hgives.1))
  rw [← asked_ids]
  exact List.forall₂_eq_eq_eq ▸ hids

end GenerationMap

theorem BrainWorker.missing_eq_nil_iff (b : BrainWorker) (posted : List GenerateRequest)
    (batches : List GeneratedBatch) : b.missing posted batches = [] ↔ batches.length = posted.length := by
  rw [missing]
  split
  · next heq => exact ⟨fun _ => heq, fun _ => rfl⟩
  · next hne => exact ⟨fun h => absurd h (List.cons_ne_nil _ _), fun h => absurd h hne⟩

namespace Tasks

variable {id : String} {brain : Brain} {c : Catalog} {s s' : Tasks}

/-- A round in which the brain gets what it would get of generators that are just started for a map. -/
structure Round.Follows (id : String) (brain : Brain) (c : Catalog) (rounds : List BrainRound)
    (marked : GenerationMap) (r : Round) : Prop where
  slots : r.task.slots = marked.map (·.1)
  planned : ∃ plan, brain.plan rounds r.task = some plan ∧
    r.posted = plan.filter fun q => marked.any (·.1 == q.id)
  batches : r.batches = (BrainWorker.collect r.posted ((BrainWorker.start id brain c).begun marked)).2

/-- The brain has the generators that are granted for a map. Outside of rounds they are as they were
    started. -/
structure Plays (id : String) (brain : Brain) (c : Catalog) (s : Tasks) (marked : GenerationMap) :
    Prop where
  granted : ∀ entry ∈ marked, c.grants brain entry = true
  positions : s.slots.map (·.1) = marked.map (·.1)
  idle : s.round? = none → s.phase = .stopped ∨
    (worker (BrainWorker.start id brain c) s).slots = (BrainWorker.start id brain c).begun marked
  round : ∀ r, s.round? = some r → r.Follows id brain c s.rounds marked

theorem plays_of_released (hslots : s.slots = []) (hround : s.round? = none) : Plays id brain c s [] where
  granted := fun _ h => absurd h List.not_mem_nil
  positions := by rw [hslots, List.map_nil, List.map_nil]
  idle _ := by
    rw [worker, hslots]
    exact .inr rfl
  round r h := absurd (hround.symm.trans h) (Option.some_ne_none r).symm

theorem Plays.goesOn {marked : GenerationMap} (hs : Plays id brain c s marked) {r : Round}
    (hround : s.round? = some r) (h : r.GoesOn s s') : Plays id brain c s' marked where
  granted := hs.granted
  positions := h.positions.trans hs.positions
  idle hnone := absurd (h.round.symm.trans hnone) (Option.some_ne_none r)
  round r' hr' := by
    obtain rfl : r = r' := Option.some.inj (h.round.symm.trans hr')
    exact h.rounds ▸ hs.round r hround

theorem conclude_released (b : BrainWorker) (s : Tasks) (task : BrainTask) (posted : List GenerateRequest)
    (batches : List GeneratedBatch) :
    (Tasks.conclude b s task posted batches).slots = [] ∧
      (Tasks.conclude b s task posted batches).round? = none := by
  rw [Tasks.conclude]
  cases hassemble : b.brain.assemble s.rounds ⟨task, batches⟩ <;>
    simp [send, release, hassemble, round?]

theorem take_plays {marked : GenerationMap} (hs : Plays id brain c s marked) (hphase : s.phase = .waiting)
    (hfresh : ∀ p ∈ s.slots, p.2 = .start p.2.worker) (hsound : ∀ p ∈ s.slots, p.2.Sound) (r : Request) :
    ∃ marked', Plays id brain c (take (BrainWorker.start id brain c) s r) marked' := by
  have hnone : s.round? = none := by simp only [round?, hphase]
  have hidle : (worker (BrainWorker.start id brain c) s).slots =
      (BrainWorker.start id brain c).begun marked :=
    (hs.idle hnone).resolve_left (by simp only [hphase, reduceCtorEq, not_false_eq_true])
  cases r with
  | checkIntegrity file =>
    rw [take]
    split
    · exact ⟨marked, hs.granted, hs.positions, hs.idle, hs.round⟩
    · exact ⟨[], plays_of_released rfl rfl⟩
  | initializeBrain map => exact ⟨[], plays_of_released rfl rfl⟩
  | handleGeneration g =>
    rw [take]
    split
    · next plan hplan =>
      -- nothing was posted to the generators before, so that the whole round can be told from here
      refine ⟨marked, hs.granted, hs.positions, fun h => absurd h (Option.some_ne_none _), fun r hr => ?_⟩
      obtain rfl := Option.some.inj hr
      have hpostable : postable s.slots plan = plan.filter fun q => marked.any (·.1 == q.id) := by
        simp only [postable, any_positions, hs.positions]
        refine List.filter_congr fun q _ => ?_
        rw [List.any_map]
        rfl
      refine ⟨hs.positions, ⟨plan, hplan, ?_⟩, ?_⟩
      · exact hpostable
      · rw [← hidle]
        exact congrArg Prod.snd (gathered_postRest hfresh hsound plan)
    · exact ⟨[], plays_of_released rfl rfl⟩
  | _ => exact ⟨marked, hs.granted, hs.positions, hs.idle, hs.round⟩

theorem BrainStep.plays {marked : GenerationMap} (hsound : s.Sound) (hs : Plays id brain c s marked)
    (h : BrainStep (BrainWorker.start id brain c) s s') : ∃ marked', Plays id brain c s' marked' := by
  cases hround : s.round? with
  | some r =>
    rcases h.round_cases hsound hround with ⟨hgoes, -⟩ | ⟨-, rfl⟩
    · exact ⟨marked, hs.goesOn hround hgoes⟩
    · obtain ⟨hslots, hnone⟩ := conclude_released (BrainWorker.start id brain c) s r.task r.posted r.batches
      exact ⟨[], plays_of_released hslots hnone⟩
  | none =>
    have hidle {todo started : GenerationMap} (hphase : s.phase = .starting todo started) :
        (worker (BrainWorker.start id brain c) s).slots =
          (BrainWorker.start id brain c).begun marked :=
      (hs.idle hround).resolve_left (by simp only [hphase, reduceCtorEq, not_false_eq_true])
    cases h with
    | @take r rest hphase hinbox =>
      have hkept : Plays id brain c { s with inbox := rest } marked :=
        ⟨hs.granted, hs.positions, hs.idle, hs.round⟩
      have hfresh := hsound.phase
      rw [hphase] at hfresh
      exact take_plays hkept hphase hfresh hsound.generators r
    | @start slot module todo started w hphase hstart =>
      have hgrants : c.grants brain (slot, module) = true := by
        by_contra hrefused
        obtain ⟨why, herror, -⟩ := BrainWorker.startGenerator_of_not_grants id
          (Bool.not_eq_true _ ▸ hrefused)
        rw [hstart] at herror
        cases herror
      refine ⟨marked ++ [(slot, module)], fun entry hentry => ?_, ?_, fun _ => .inr ?_, fun r hr => ?_⟩
      · rcases List.mem_append.mp hentry with hentry | hentry
        · exact hs.granted entry hentry
        · exact List.mem_singleton.mp hentry ▸ hgrants
      · simp [hs.positions]
      · have hbegun : (BrainWorker.start id brain c).begun (marked ++ [(slot, module)]) =
            (BrainWorker.start id brain c).begun marked ++ [(slot, w)] := by
          simp only [BrainWorker.begun, List.filterMap_append, List.filterMap_cons, hstart,
            List.filterMap_nil]
        rw [hbegun, ← hidle hphase, worker, worker]
        simp [GeneratorTask.start]
      · cases hr
    | reject hphase =>
      refine ⟨marked, hs.granted, hs.positions, fun _ => .inr (hidle hphase), fun r hr => ?_⟩
      cases hr
    | mark hphase =>
      refine ⟨marked, hs.granted, hs.positions, fun _ => .inr (hidle hphase), fun r hr => ?_⟩
      cases hr
    | _ hphase => simp [round?, hphase] at hround

theorem Step.plays {marked : GenerationMap} (hsound : s.Sound) (hs : Plays id brain c s marked)
    (h : Step (BrainWorker.start id brain c) s s') : ∃ marked', Plays id brain c s' marked' := by
  cases h with
  | brain h => exact h.plays hsound hs
  | @generator i slot g g' hslot hstep =>
    obtain ⟨hround, -⟩ := generator_round hslot hstep
    refine ⟨marked, hs.granted, ?_, fun hnone => ?_, fun r hr => hs.round r (hround ▸ hr)⟩
    · rw [← hs.positions]
      exact map_set_of_eq hslot rfl
    · exact .inl (hsound.stopped_of_generator (hround ▸ hnone) hslot hstep)
  | _ => exact ⟨marked, hs.granted, hs.positions, hs.idle, hs.round⟩

theorem Reachable.plays {requests : List Request} (hcatalog : c.NeverFails)
    (hmaps : ∀ map, .initializeBrain map ∈ requests → (map.map (·.1)).Nodup)
    (h : Reachable (BrainWorker.start id brain c) requests s) : ∃ marked, Plays id brain c s marked := by
  induction h with
  | refl => exact ⟨[], plays_of_released rfl rfl⟩
  | tail hbefore hstep ih =>
    obtain ⟨marked, hplays⟩ := ih
    exact hstep.plays (Reachable.sound hcatalog rfl hmaps hbefore).1 hplays

section Ending

variable {b : BrainWorker}

/-- A round goes on, and comes to the same, until the brain makes its tuples of it. -/
theorem Step.round_cases (hs : s.Sound) (h : Step b s s') {r : Round} (hround : s.round? = some r) :
    r.GoesOn s s' ∨ BrainStep b s s' ∧ s' = Tasks.conclude b s r.task r.posted r.batches := by
  cases h with
  | brain h =>
    rcases h.round_cases hs hround with ⟨hgoes, -⟩ | ⟨-, hend⟩
    · exact .inl hgoes
    · exact .inr ⟨h, hend⟩
  | generator hslot hstep =>
    exact .inl ⟨(generator_round hslot hstep).1.trans hround, rfl, map_set_of_eq hslot rfl⟩
  | _ => exact .inl ⟨hround, rfl, rfl⟩

/-- Every round can be brought to its end. -/
theorem exists_conclude (hcatalog : b.catalog.NeverFails) (halive : b.alive = true) {r : Round}
    (hs : s.Sound) (hround : s.round? = some r) :
    ∃ last, Relation.ReflTransGen (Step b) s last ∧ last.round? = some r ∧ last.rounds = s.rounds ∧
      BrainStep b last (Tasks.conclude b last r.task r.posted r.batches) := by
  -- by induction on what is left to do: a round never waits for ever, and no step of it leads out of it
  induction s using (step_wellFounded b).induction with
  | _ s ih =>
    obtain ⟨s', hstep⟩ := hs.exists_step_of_round (b := b) hround
    rcases hstep.round_cases hs hround with hgoes | ⟨hends, rfl⟩
    · obtain ⟨last, hlast, hsame, hrounds, hends⟩ :=
        ih s' hstep (hstep.sound hcatalog halive hs).1 hgoes.round
      exact ⟨last, .head hstep hlast, hsame, hrounds.trans hgoes.rounds, hends⟩
    · exact ⟨s, .refl, hround, rfl, hends⟩

end Ending

/-- The positions that are asked for anything, each once. -/
theorem asked_perm_dedup {slots ids : List Nat} (hslots : slots.Nodup) (hids : ∀ slot ∈ ids, slot ∈ slots) :
    (slots.filter fun slot => ids.any (· == slot)).Perm ids.dedup := by
  refine (List.perm_ext_iff_of_nodup (hslots.filter _) (List.nodup_dedup ids)).mpr fun slot => ?_
  rw [List.mem_filter, List.mem_dedup, List.any_beq', List.contains_iff_mem]
  exact ⟨And.right, fun h => ⟨hids slot h, h⟩⟩

section Batches

variable {rounds : List BrainRound} {marked : GenerationMap} {r : Round}

theorem Round.Follows.gives (hcatalog : c.NeverFails) (hgranted : ∀ entry ∈ marked, c.grants brain entry = true)
    (h : r.Follows id brain c rounds marked) : List.Forall₂ c.Gives (marked.asked r.posted) r.batches := by
  rw [h.batches]
  exact (BrainWorker.collect_begun id hcatalog r.posted hgranted).2

theorem Round.Follows.posted_eq (h : r.Follows id brain c rounds marked) :
    ∃ plan, brain.plan rounds r.task = some plan ∧
      r.posted = plan.filter fun q => r.task.slots.contains q.id := by
  obtain ⟨plan, hplan, hposted⟩ := h.planned
  refine ⟨plan, hplan, hposted.trans (List.filter_congr fun q _ => ?_)⟩
  rw [h.slots, ← List.any_beq', List.any_map]
  rfl

/-- There is one batch for each position that anything is posted to. -/
theorem Round.Follows.batches_perm (hcatalog : c.NeverFails)
    (hgranted : ∀ entry ∈ marked, c.grants brain entry = true) (hnodup : (marked.map (·.1)).Nodup)
    (h : r.Follows id brain c rounds marked) :
    (r.batches.map (·.id)).Perm (r.posted.map (·.id)).dedup := by
  obtain ⟨plan, -, hposted⟩ := h.posted_eq
  have hknown : ∀ slot ∈ r.posted.map (·.id), slot ∈ marked.map (·.1) := by
    intro slot hslot
    obtain ⟨q, hq, rfl⟩ := List.mem_map.mp hslot
    rw [hposted] at hq
    rw [← h.slots, ← List.contains_iff_mem]
    exact (List.mem_filter.mp hq).2
  rw [GenerationMap.batches_ids (h.gives hcatalog hgranted)]
  simpa only [List.any_map, Function.comp_def] using asked_perm_dedup hnodup hknown

end Batches

/-- In every round, whatever the schedule, the brain makes its tuples of one batch for each position that its
    plan asks for anything and that has a generator: of the answer of the generator, as it was started, to
    the first request. This is one batch for each request that was posted just when no two of them are
    for one position; otherwise batches are found missing, although no generator has failed. Generators
    must not break down over a batch. Plans may ask for what they like, in any order. -/
theorem round_batches (id : String) (brain : Brain) {c : Catalog} {requests : List Request}
    (hcatalog : c.NeverFails) (hmaps : ∀ map, .initializeBrain map ∈ requests → (map.map (·.1)).Nodup)
    {s : Tasks} (hs : Reachable (BrainWorker.start id brain c) requests s) {r : Round}
    (hround : s.round? = some r) :
    let b := BrainWorker.start id brain c
    (∃ plan, brain.plan s.rounds r.task = some plan ∧
      r.posted = plan.filter fun q => r.task.slots.contains q.id) ∧
    (∃ marked : GenerationMap, marked.map (·.1) = r.task.slots ∧
      List.Forall₂ c.Gives (marked.asked r.posted) r.batches) ∧
    (r.batches.map (·.id)).Perm (r.posted.map (·.id)).dedup ∧
    ((r.batches.map (·.id)).Perm (r.posted.map (·.id)) ↔ (r.posted.map (·.id)).Nodup) ∧
    (b.missing r.posted r.batches = [] ↔ (r.posted.map (·.id)).Nodup) ∧
    (∀ s', Step b s s' → s'.round? = some r ∧ s'.rounds = s.rounds ∨
      BrainStep b s s' ∧ s' = Tasks.conclude b s r.task r.posted r.batches) ∧
    ∃ last, Relation.ReflTransGen (Step b) s last ∧ last.round? = some r ∧ last.rounds = s.rounds ∧
      BrainStep b last (Tasks.conclude b last r.task r.posted r.batches) := by
  intro b
  have hsound := (hs.sound hcatalog rfl hmaps).1
  obtain ⟨marked, hplays⟩ := hs.plays hcatalog hmaps
  have hfollows := hplays.round r hround
  have hnodup : (marked.map (·.1)).Nodup := hplays.positions ▸ hsound.positions
  have hperm := hfollows.batches_perm hcatalog hplays.granted hnodup
  have hdedup : (r.posted.map (·.id)).dedup.length = (r.posted.map (·.id)).length ↔
      (r.posted.map (·.id)).Nodup :=
    ⟨fun h => List.dedup_eq_self.mp ((List.dedup_sublist _).eq_of_length h),
      fun h => by rw [List.dedup_eq_self.mpr h]⟩
  refine ⟨hfollows.posted_eq, ⟨marked, hfollows.slots.symm, hfollows.gives hcatalog hplays.granted⟩, hperm,
    ⟨fun h => hdedup.mp (hperm.symm.trans h).length_eq, fun h => ?_⟩, ?_, fun s' hstep => ?_,
    exists_conclude hcatalog rfl hsound hround⟩
  · rwa [List.dedup_eq_self.mpr h] at hperm
  · rw [BrainWorker.missing_eq_nil_iff, ← hdedup, ← hperm.length_eq, List.length_map, List.length_map]
  · rcases hstep.round_cases hsound hround with hgoes | hends
    · exact .inl ⟨hgoes.round, hgoes.rounds⟩
    · exact .inr hends

end Tasks

namespace Sample

/-- Has one plan for all tasks. -/
def planning (plan : List GenerateRequest) : Brain where
  name := "planning"
  description := "one plan"
  compatible := ["*"]
  check := none
  plan _ _ := some plan
  assemble _ round := some (round.generated.map (·.batch))

def planningWorker (plan : List GenerateRequest) : BrainWorker :=
  BrainWorker.start "planning" (planning plan) steadyCatalog

def oneBatch : List Request := [.initializeBrain [(0, "steady")], .handleGeneration ⟨1, none⟩]

/-- The tasks when the brain is about to post its plan. -/
def planned (plan : List GenerateRequest) : Tasks where
  unposted := []
  inbox := []
  rounds := []
  phase := .posting ⟨[0], 1, none⟩ plan []
  slots := [(0, .start (GeneratorWorker.start "steady" steady))]
  adrift := []
  sent := [Response.result (.mark [(0, "steady")])]

theorem planned_reachable (plan : List GenerateRequest) :
    Tasks.Reachable (planningWorker plan) oneBatch (planned plan) :=
  .head (.request rfl) (.head (.request rfl) (.head (.brain (.take rfl rfl))
    (.head (.brain (.start rfl rfl)) (.head (.brain (.mark rfl)) (.head (.brain (.take rfl rfl)) .refl)))))

theorem oneBatch_positions : ∀ map, .initializeBrain map ∈ oneBatch → (map.map (·.1)).Nodup := by
  intro map hmap
  have hmap : map = [(0, "steady")] := by simpa [oneBatch] using hmap
  rw [hmap]
  exact List.nodup_singleton 0

end Sample

namespace Tasks

theorem round_batches_once :
    ∃ r : Round, (Sample.planned [⟨0, 1, []⟩]).round? = some r ∧ (r.batches.map (·.id)).Perm [0] ∧
      (Sample.planningWorker [⟨0, 1, []⟩]).missing r.posted r.batches = [] := by
  obtain ⟨-, -, -, hperm, hmissing, -, -⟩ := round_batches "planning" (Sample.planning [⟨0, 1, []⟩])
    Sample.steadyCatalog_neverFails Sample.oneBatch_positions (Sample.planned_reachable [⟨0, 1, []⟩]) rfl
  exact ⟨_, rfl, hperm.mpr (List.nodup_singleton 0), hmissing.mpr (List.nodup_singleton 0)⟩

/-- A plan with two requests for one position gets one batch. -/
theorem round_batches_dropped :
    ∃ (s : Tasks) (r : Round),
      Reachable (Sample.planningWorker [⟨0, 1, []⟩, ⟨0, 1, []⟩]) Sample.oneBatch s ∧
      BrainStep (Sample.planningWorker [⟨0, 1, []⟩, ⟨0, 1, []⟩]) s
        (conclude (Sample.planningWorker [⟨0, 1, []⟩, ⟨0, 1, []⟩]) s r.task r.posted r.batches) ∧
      r.posted.map (·.id) = [0, 0] ∧ r.batches.map (·.id) = [0] := by
  have hreachable := Sample.planned_reachable [⟨0, 1, []⟩, ⟨0, 1, []⟩]
  have hsound := (hreachable.sound Sample.steadyCatalog_neverFails rfl Sample.oneBatch_positions).1
  obtain ⟨last, hlast, -, -, hends⟩ :=
    exists_conclude (b := Sample.planningWorker [⟨0, 1, []⟩, ⟨0, 1, []⟩]) Sample.steadyCatalog_neverFails rfl
      hsound rfl
  exact ⟨last, _, hreachable.trans hlast, hends, rfl, rfl⟩

end Tasks
end PageProbe
