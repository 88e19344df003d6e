import PageProbe.Proofs.Plugin.Combinations
import PageProbe.Proofs.Session.Dispatch

namespace PageProbe

open Json (Value)

namespace Dispatcher

/-- A living brain answers with the one message that is no debugging. -/
theorem ask_brain {w : BrainWorker} (ask : Request) {m : Response} (halive : w.alive = true)
    (hanswer : (w.handle ask).2.find? (!·.isDebug) = some m) (deadline : Nat) :
    (Worker.brain w).ask ask deadline = (.brain (w.handle ask).1, .ok m.body) := by
  have hmessages : ((Worker.brain w).handle ask).2.find? (!·.isDebug) = some m := hanswer
  rw [Worker.ask, Worker.alive, halive]
  simp only [Bool.not_true, Bool.false_eq_true, if_false, hmessages]
  rfl

/-- The brain with the generators that can be started. -/
def brainFor (d : Dispatcher) (r : FuzzRequest) : BrainWorker :=
  ((BrainWorker.start r.brain Combinations.brain d.catalog).initialise r.generators).1

/-- It is enough that one generator can be started. -/
theorem brainFor_started {d : Dispatcher} {r : FuzzRequest}
    (hbrain : d.catalog.brain r.brain = .ok Combinations.brain)
    (hstarted : d.catalog.started r.generators ≠ [] ∨ r.generators = []) :
    BrainStarted d.catalog d.stageDeadline r (.brain (d.brainFor r)) := by
  have hask := ask_brain (w := BrainWorker.start r.brain Combinations.brain d.catalog)
    (.initializeBrain r.generators) rfl
    (BrainWorker.find?_initialise r.brain d.catalog r.generators) d.stageDeadline
  refine .intro hbrain hask fun hnone => ?_
  exact hstarted.resolve_left fun h => h (List.map_eq_nil_iff.mp hnone)

/-- The combinations of what the generators answer at first. -/
theorem ask_brainFor {d : Dispatcher} {r : FuzzRequest} (hascending : r.generators.Ascending)
    (previous : Option (List FuzzRecord)) (deadline : Nat) :
    ((Worker.brain (d.brainFor r)).ask (.handleGeneration ⟨r.batchSize, previous⟩) deadline).2 =
      .ok (.assembled (Combinations.product ((d.catalog.columns r.generators r.batchSize).map (·.2)))) := by
  have hask := ask_brain (w := d.brainFor r) (.handleGeneration ⟨r.batchSize, previous⟩) rfl
    (BrainWorker.find?_makeBatch rfl (BrainWorker.slots_initialise r.brain d.catalog r.generators) _) deadline
  rw [BrainWorker.assemble_firstBatches hascending] at hask
  rw [hask]
  rfl

/-- The detector has to be known as well. -/
theorem run_prepare {d : Dispatcher} {r : FuzzRequest} {detector : Detector}
    (hascending : r.generators.Ascending) (hbrain : d.catalog.brain r.brain = .ok Combinations.brain)
    (hdetector : d.catalog.detector r.detector = .ok detector)
    (hstarted : d.catalog.started r.generators ≠ [] ∨ r.generators = []) :
    ∃ prepared : Dispatcher, (prepare r).run.run d =
      (.ok (.detector (DetectorWorker.start r.detector detector),
        Combinations.product ((d.catalog.columns r.generators r.batchSize).map (·.2))), prepared) :=
  prepare_iff.mpr ⟨⟨detector, hdetector, rfl⟩, .brain (d.brainFor r), brainFor_started hbrain hstarted,
    ask_brainFor hascending _ _⟩

/-- What a run on a target that is found comes to when its brain has answered: the batch is what is
    loaded, executed, and written into the records. -/
theorem dispatch_batch {d prepared : Dispatcher} {tree : FunctionTree} {r : FuzzRequest}
    {i : Injector} {detector : Worker} {tuples : List (List Value)}
    (hselect : d.release.injector.select tree r.target r.dependencyArgs = .ok i)
    (hprepare : (prepare r).run.run { d.release.showProgress .start with injector := i } =
      (.ok (detector, tuples), prepared)) (l : Launcher σ) (memory : σ) :
    ∃ (batch : List Tuple) (events : List InjectorEvent) (records : List FuzzRecord),
      batch.map (·.args) = tuples.map some ++ [none] ∧
      events.filter InjectorEvent.isControl = .load batch :: InjectorEvent.ofExecutions batch ∧
      records.map (·.args) = batch.map (·.args) ∧
      (d.dispatch tree l memory r).1.previousBatch r.target = some records ∧
      ∀ outcome, (d.dispatch tree l memory r).2.2 = .ok outcome →
        outcome.records.map (·.args) = batch.map (·.args) ∧
          (d.dispatch tree l memory r).1.injector = i.run events := by
  obtain ⟨executed, batch, es, records, hexecuted, hleft, hcame, _⟩ :=
    dispatch_executed hselect hprepare l memory
  obtain ⟨events, hevents, hinjector⟩ := hexecuted.scheduled
  refine ⟨batch, events, records, hexecuted.batch_args, hevents, hexecuted.args, ?_, ?_⟩
  · rw [hleft]
    exact executed.endOf_previousBatch r detector records
  · intro outcome houtcome
    have hend := endOf_cases hexecuted.shown hexecuted.unjudged r detector
    rw [← hcame, houtcome] at hend
    obtain ⟨_, hsame, hkept, _⟩ := hend
    refine ⟨?_, ?_⟩
    · rw [← hexecuted.args, ← hsame, List.map_map]
      rfl
    · rw [hleft, hkept, hinjector]

/-- Under the brain of combinations a run executes every combination of what the generators answer, one
    value a column, and then the baseline. The value of a generator stands behind those of the generators
    of earlier positions, and that is its own position only when every earlier one has a generator that
    answers. A position that the map skips, whose generator can not be started or breaks down has no
    argument at all, and what comes after it moves up. Nothing is assumed of the generators or the
    launcher; the detector may fail to answer. -/
theorem dispatch_arguments {d : Dispatcher} {tree : FunctionTree} {r : FuzzRequest} {i : Injector}
    {detector : Detector} (hascending : r.generators.Ascending)
    (hselect : d.release.injector.select tree r.target r.dependencyArgs = .ok i)
    (hbrain : d.catalog.brain r.brain = .ok Combinations.brain)
    (hdetector : d.catalog.detector r.detector = .ok detector)
    (hstarted : d.catalog.started r.generators ≠ [] ∨ r.generators = [])
    (l : Launcher σ) (memory : σ) :
    let columns := d.catalog.columns r.generators r.batchSize
    ∃ (batch : List Tuple) (events : List InjectorEvent) (records : List FuzzRecord),
      batch.map (·.args) = (Combinations.product (columns.map (·.2))).map some ++ [none] ∧
      events.filter InjectorEvent.isControl = .load batch :: InjectorEvent.ofExecutions batch ∧
      records.map (·.args) = batch.map (·.args) ∧
      (d.dispatch tree l memory r).1.previousBatch r.target = some records ∧
      (∀ outcome, (d.dispatch tree l memory r).2.2 = .ok outcome →
        outcome.records.map (·.args) = batch.map (·.args) ∧
          (d.dispatch tree l memory r).1.injector = i.run events) ∧
      (∀ t ∈ batch, ∀ args, t.args = some args → args.length = columns.length ∧
        ∀ (slot : Nat) (id : String) (g : Generator) (values : List Value), (slot, id) ∈ r.generators →
          d.catalog.generator id slot = .ok g → g.generate [] r.batchSize [] = some values →
            ∃ v ∈ values, args[Combinations.columnOf columns slot]? = some v) ∧
      ∀ slot, Combinations.columnOf columns slot = slot ↔
        ∀ j < slot, ∃ id g values, (j, id) ∈ r.generators ∧ d.catalog.generator id j = .ok g ∧
          g.generate [] r.batchSize [] = some values := by
  intro columns
  have hcolumns : columns.Pairwise (·.1 < ·.1) := Catalog.columns_ascending hascending
  have hprepare : ∃ prepared, (prepare r).run.run { d.release.showProgress .start with injector := i } =
      (.ok (.detector (DetectorWorker.start r.detector detector),
        Combinations.product (columns.map (·.2))), prepared) :=
    run_prepare hascending hbrain hdetector hstarted
  obtain ⟨prepared, hprepare⟩ := hprepare
  obtain ⟨batch, events, records, hbatch, hevents, hargs, hrecords, houtcome⟩ :=
    dispatch_batch hselect hprepare l memory
  refine ⟨batch, events, records, hbatch, hevents, hargs, hrecords, houtcome, ?_, fun slot => ?_⟩
  · intro t ht args htargs
    have hmem : some args ∈ (Combinations.product (columns.map (·.2))).map some ++ [none] := by
      rw [← htargs, ← hbatch]
      exact List.mem_map_of_mem ht
    have hproduct : args ∈ Combinations.product (columns.map (·.2)) := by
      simpa using hmem
    refine ⟨(Combinations.mem_product.mp hproduct).length_eq.trans (List.length_map _), ?_⟩
    intro slot id g values hmap hg hanswer
    have hcolumn := Combinations.getElem?_columnOf hcolumns
      (Catalog.mem_columns.mpr ⟨id, g, hmap, hg, hanswer⟩)
    exact Combinations.getElem?_of_mem_product hproduct (by rw [List.getElem?_map, hcolumn]; rfl)
  · rw [Combinations.columnOf_eq_iff hcolumns]
    refine forall₂_congr fun j _ => ?_
    rw [List.mem_map]
    constructor
    · rintro ⟨⟨_, values⟩, hmem, rfl⟩
      obtain ⟨id, g, hanswer⟩ := Catalog.mem_columns.mp hmem
      exact ⟨id, g, values, hanswer⟩
    · rintro ⟨id, g, values, hanswer⟩
      exact ⟨(j, values), Catalog.mem_columns.mpr ⟨id, g, hanswer⟩, rfl⟩

end Dispatcher

namespace Sample

/-- Has one value, whatever it is asked for. -/
def letter : Generator where
  name := "letter"
  description := "one letter"
  compatibleBrains := []
  check := fun _ => none
  generate := fun _ _ _ => some [.string "x"]

def combining : Dispatcher :=
  Dispatcher.start ⟨0, [("letter", fun _ => letter)], [("detector", detector)],
    [(Combinations.moduleId, Combinations.brain)]⟩
    ⟨fun n => String.ofList (List.replicate n 'u'), 0⟩ 100

/-- Asks for the second argument only. -/
def skipping : FuzzRequest :=
  ⟨"/a.js/outer/inner", [(1, "letter")], "detector", Combinations.moduleId, 1, [["1"]]⟩

/-- Asks for both arguments, the first from a generator that nobody knows. -/
def rejected : FuzzRequest := { skipping with generators := [(0, "nobody"), (1, "letter")] }

/-- The generator of the second argument can be started, and the function is called without a second
    argument. -/
def MovesUp (r : FuzzRequest) : Prop :=
  (1, "letter") ∈ r.generators ∧ combining.catalog.generator "letter" 1 = .ok letter ∧
    ∃ records args, (combining.dispatch tree launcher true r).1.previousBatch r.target = some records ∧
      some args ∈ records.map (·.args) ∧ args[1]? = none

end Sample

namespace Dispatcher

theorem dispatch_moves_up : Sample.MovesUp Sample.skipping ∧ Sample.MovesUp Sample.rejected :=
  ⟨⟨by decide, rfl, _, [.string "x"], rfl, List.mem_cons_self, rfl⟩,
    ⟨by decide, rfl, _, [.string "x"], rfl, List.mem_cons_self, rfl⟩⟩

theorem dispatch_arguments_rejected :
    ∃ batch : List Tuple, batch.map (·.args) = [some [.string "x"], none] ∧
      ∀ t ∈ batch, ∀ args, t.args = some args → ∃ v ∈ [Value.string "x"], args[0]? = some v := by
  have hselect : Sample.combining.release.injector.select Sample.tree Sample.rejected.target
      Sample.rejected.dependencyArgs = .ok Sample.selected := rfl
  obtain ⟨batch, _, _, hbatch, _, _, _, _, hvalues, _⟩ :=
    dispatch_arguments (show Sample.rejected.generators.Pairwise (·.1 < ·.1) by decide) hselect rfl
      (show Sample.combining.catalog.detector "detector" = .ok Sample.detector from rfl)
      (.inl (List.cons_ne_nil _ _)) Sample.launcher true
  refine ⟨batch, hbatch, fun t ht args hargs => ?_⟩
  exact (hvalues t ht args hargs).2 1 "letter" Sample.letter _ (by decide) rfl rfl

end Dispatcher
end PageProbe
