import PageProbe.Proofs.Session.History

namespace PageProbe
namespace Dispatcher

open Json (Value)

/-- No run changes the catalog. -/
theorem performAll_catalog (d : Dispatcher) (jobs : List Job) : (d.performAll jobs).catalog = d.catalog :=
  congrArg Prod.fst (d.performAll_settings jobs)

/-- When the brain of combinations has been started, it has the generators that can be started, and these
    have not been asked for anything yet. -/
theorem eq_brainFor_of_started {d : Dispatcher} {deadline : Nat} {r : FuzzRequest} {brain : Worker}
    (hbrain : d.catalog.brain r.brain = .ok Combinations.brain)
    (h : BrainStarted d.catalog deadline r brain) : brain = .brain (d.brainFor r) := by
  obtain @⟨plugin, started, hknown, hreply, _⟩ := h
  obtain rfl := Except.ok.inj (hbrain.symm.trans hknown)
  have hask := ask_brain (w := BrainWorker.start r.brain Combinations.brain d.catalog)
    (.initializeBrain r.generators) rfl
    (BrainWorker.find?_initialise r.brain d.catalog r.generators) deadline
  exact congrArg Prod.fst (hreply.symm.trans hask)

/-- What a run executes under the brain of combinations. That the detector is known and some generator can
    be started follows from there being anything to execute. -/
theorem prepare_tuples {d after : Dispatcher} {r : FuzzRequest} {detector : Worker}
    {tuples : List (List Value)} (hascending : r.generators.Ascending)
    (h : (prepare r).run.run d = (.ok (detector, tuples), after))
    (hbrain : d.catalog.brain r.brain = .ok Combinations.brain) :
    tuples = Combinations.product ((d.catalog.columns r.generators r.batchSize).map (·.2)) := by
  obtain ⟨_, brain, hstarted, hanswer⟩ := prepare_iff.mp ⟨after, h⟩
  obtain rfl := eq_brainFor_of_started hbrain hstarted
  rw [ask_brainFor hascending] at hanswer
  cases hanswer
  rfl

/-- The arguments of a run that succeeds do not depend on anything that has happened to its dispatcher,
    nor on its target, its tree or its contexts. -/
theorem perform_args {d : Dispatcher} {j : Job} {outcome : FuzzOutcome}
    (hascending : j.request.generators.Ascending)
    (hbrain : d.catalog.brain j.request.brain = .ok Combinations.brain)
    (h : (d.perform j).2 = .ok outcome) :
    outcome.records.map (·.args) =
      (Combinations.product ((d.catalog.columns j.request.generators j.request.batchSize).map (·.2))).map
        some ++ [none] := by
  rw [perform_eq] at h
  rcases d.dispatch_left j.tree j.request j.launcher j.memory with
    ⟨_, _, hfailed, _⟩ | ⟨_, detector, tuples, _, executed, _, _, records, hprepare, _, hexecuted, _, hend⟩
  · rw [hfailed] at h
    cases h
  · have hended := (executed.endOf_left j.request detector records).2
    rw [← hend, h] at hended
    obtain ⟨_, _, hunjudged⟩ := hended
    have hsame : outcome.records.map (·.args) = records.map (·.args) := by
      simpa [Function.comp_def, FuzzRecord.unjudged] using congrArg (List.map FuzzRecord.args) hunjudged
    rw [hsame, hexecuted.args, hexecuted.batch_args, prepare_tuples hascending hprepare hbrain]
    rfl

/-- A request that succeeds twice under the brain of combinations, in two dispatchers with one catalog,
    comes to the same arguments in the same order, whatever runs the two have made before. What stands
    in the column of a position is the first answer of a generator that has just been made, with the
    seed of the catalog plus the position, modulo `2^64`. Nothing else is said about the two runs: trees,
    contexts, ids and deadlines may differ, and earlier runs may have failed. -/
theorem performAll_reproduces {d₁ d₂ : Dispatcher} {c : Catalog} {j₁ j₂ : Job} {o₁ o₂ : FuzzOutcome}
    (hcatalog₁ : d₁.catalog = c) (hcatalog₂ : d₂.catalog = c) (history₁ history₂ : List Job)
    (hrequest : j₁.request = j₂.request) (hascending : j₁.request.generators.Ascending)
    (hbrain : c.brain j₁.request.brain = .ok Combinations.brain)
    (hok₁ : ((d₁.performAll history₁).perform j₁).2 = .ok o₁)
    (hok₂ : ((d₂.performAll history₂).perform j₂).2 = .ok o₂) :
    o₁.records.map (·.args) = o₂.records.map (·.args) ∧
      ∃ columns : List (Nat × List Value),
        columns.Pairwise (·.1 < ·.1) ∧
        (∀ slot values, (slot, values) ∈ columns ↔
          ∃ id make, (slot, id) ∈ j₁.request.generators ∧ c.generators.lookup id = some make ∧
            (make ((c.seed + slot) % 2 ^ 64)).generate [] j₁.request.batchSize [] = some values) ∧
        o₁.records.map (·.args) = (Combinations.product (columns.map (·.2))).map some ++ [none] := by
  have hnow₁ : (d₁.performAll history₁).catalog = c := (d₁.performAll_catalog history₁).trans hcatalog₁
  have hnow₂ : (d₂.performAll history₂).catalog = c := (d₂.performAll_catalog history₂).trans hcatalog₂
  have hargs₁ := perform_args hascending (hnow₁.symm ▸ hbrain) hok₁
  have hargs₂ := perform_args (hrequest ▸ hascending) (hnow₂.symm ▸ hrequest ▸ hbrain) hok₂
  rw [hnow₁] at hargs₁
  rw [hnow₂, ← hrequest] at hargs₂
  refine ⟨hargs₁.trans hargs₂.symm, c.columns j₁.request.generators j₁.request.batchSize,
    Catalog.columns_ascending hascending, fun slot values => ?_, hargs₁⟩
  rw [Catalog.mem_columns]
  constructor
  · rintro ⟨id, g, hslot, hgenerator, hvalues⟩
    rw [Catalog.generator] at hgenerator
    cases hmake : c.generators.lookup id with
    | none =>
      rw [hmake] at hgenerator
      cases hgenerator
    | some make =>
      rw [hmake] at hgenerator
      cases hgenerator
      exact ⟨id, make, hslot, hmake, hvalues⟩
  · rintro ⟨id, make, hslot, hmake, hvalues⟩
    exact ⟨id, make (c.seedAt slot), hslot, by rw [Catalog.generator, hmake], hvalues⟩

end Dispatcher

namespace Sample

/-- Tells its seed, and how often it has been asked before. -/
def telling (seed : Nat) : Generator where
  name := "telling"
  description := "the seed and the calls"
  compatibleBrains := []
  check := fun _ => none
  generate := fun calls _ _ => some [.ofNat seed, .ofNat calls.length]

/-- With the last seed, so that the next position has the first one. -/
def retelling : Dispatcher :=
  Dispatcher.start ⟨2 ^ 64 - 1, [("telling", telling)], [("detector", detector)],
    [(Combinations.moduleId, Combinations.brain)]⟩
    ⟨fun n => String.ofList (List.replicate n 'u'), 0⟩ 100

def toldTwice : Job :=
  ⟨tree, { skipping with generators := [(1, "telling")] }, Bool, launcher, true⟩

end Sample

/-- Neither a run that has succeeded nor one that has failed makes a difference. -/
theorem Dispatcher.performAll_reproduces_telling :
    ∃ o₁ o₂, ((Sample.retelling.performAll [Sample.toldTwice, Sample.job]).perform Sample.toldTwice).2 =
        .ok o₁ ∧
      (Sample.retelling.perform Sample.toldTwice).2 = .ok o₂ ∧
      o₁.records.map (·.args) = [some [.ofNat 0], some [.ofNat 0], none] ∧
      o₁.records.map (·.args) = o₂.records.map (·.args) := by
  refine ⟨_, _, rfl, rfl, rfl, ?_⟩
  exact (performAll_reproduces (c := Sample.retelling.catalog) rfl rfl [Sample.toldTwice, Sample.job] []
    rfl (show Sample.toldTwice.request.generators.Pairwise (·.1 < ·.1) by decide) rfl rfl rfl).1

end PageProbe
