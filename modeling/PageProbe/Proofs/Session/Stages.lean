import PageProbe.Session.Dispatcher

namespace PageProbe
namespace Dispatcher

open Json (Value)

/-- What the stages before and after the executions leave alone. -/
structure Kept (before after : Dispatcher) : Prop where
  catalog : after.catalog = before.catalog
  ids : after.ids = before.ids
  injector : after.injector = before.injector
  session : after.session = before.session
  tupleDeadline : after.tupleDeadline = before.tupleDeadline
  stageDeadline : after.stageDeadline = before.stageDeadline
  previous : after.previous = before.previous

theorem Kept.trans {d₁ d₂ d₃ : Dispatcher} (h : Kept d₁ d₂) (h' : Kept d₂ d₃) : Kept d₁ d₃ where
  catalog := h'.catalog.trans h.catalog
  ids := h'.ids.trans h.ids
  injector := h'.injector.trans h.injector
  session := h'.session.trans h.session
  tupleDeadline := h'.tupleDeadline.trans h.tupleDeadline
  stageDeadline := h'.stageDeadline.trans h.stageDeadline
  previous := h'.previous.trans h.previous

/-- The settings of a dispatcher: everything that no run changes. -/
def settings (d : Dispatcher) : Catalog × Nat × Nat := (d.catalog, d.tupleDeadline, d.stageDeadline)

theorem Kept.settings {before after : Dispatcher} (h : Kept before after) :
    after.settings = before.settings := by
  rw [Dispatcher.settings, h.catalog, h.tupleDeadline, h.stageDeadline]
  rfl

/-- A stage that changes nothing but its workers and the state, also when it fails. -/
def Frames (x : Stage α) : Prop := ∀ d : Dispatcher, Kept d (x.run.run d).2

theorem run_bind (x : Stage α) (f : α → Stage β) (d : Dispatcher) :
    (x >>= f).run.run d =
      match x.run.run d with
      | (.ok a, d) => (f a).run.run d
      | (.error e, d) => (.error e, d) := by
  simp only [ExceptT.run_bind, StateT.run_bind]
  rcases x.run.run d with ⟨_ | _, _⟩ <;> rfl

theorem bind_ok {x : Stage α} {f : α → Stage β} {d after : Dispatcher} {b : β}
    (h : (x >>= f).run.run d = (.ok b, after)) :
    ∃ a next, x.run.run d = (.ok a, next) ∧ (f a).run.run next = (.ok b, after) := by
  rw [run_bind] at h
  rcases hrun : x.run.run d with ⟨_ | a, next⟩
  · rw [hrun] at h
    cases h
  · rw [hrun] at h
    exact ⟨a, next, rfl, h⟩

theorem bind_of_ok {x : Stage α} {f : α → Stage β} {d next : Dispatcher} {a : α}
    (h : x.run.run d = (.ok a, next)) : (x >>= f).run.run d = (f a).run.run next := by
  rw [run_bind, h]

theorem run_get_bind (f : Dispatcher → Stage β) (d : Dispatcher) :
    (get >>= f).run.run d = (f d).run.run d := rfl

theorem run_modify_bind (g : Dispatcher → Dispatcher) (f : Unit → Stage β) (d : Dispatcher) :
    (modify g >>= f).run.run d = (f ()).run.run (g d) := rfl

namespace Frames

theorem ok {x : Stage α} {d after : Dispatcher} {a : α} (hx : Frames x)
    (h : x.run.run d = (.ok a, after)) : Kept d after := by
  have hkept := hx d
  rwa [h] at hkept

theorem pure (a : α) : Frames (pure a : Stage α) := fun _ => ⟨rfl, rfl, rfl, rfl, rfl, rfl, rfl⟩

theorem throw (e : DispatchError) : Frames (throw e : Stage α) := fun _ => ⟨rfl, rfl, rfl, rfl, rfl, rfl, rfl⟩

theorem get : Frames (get : Stage Dispatcher) := fun _ => ⟨rfl, rfl, rfl, rfl, rfl, rfl, rfl⟩

theorem modify {f : Dispatcher → Dispatcher} (hf : ∀ d, Kept d (f d)) :
    Frames (modify f : Stage Unit) :=
  hf

theorem bind {x : Stage α} {f : α → Stage β} (hx : Frames x) (hf : ∀ a, Frames (f a)) :
    Frames (x >>= f) := by
  intro d
  have hkept := hx d
  rw [run_bind]
  rcases hrun : x.run.run d with ⟨_ | a, next⟩
  · rwa [hrun] at hkept
  · rw [hrun] at hkept
    exact hkept.trans (hf a next)

end Frames

theorem askBrain_frames (brain : Worker) (r : Request) : Frames (askBrain brain r) := by
  refine Frames.get.bind fun d => ?_
  refine Frames.bind (.modify fun _ => ⟨rfl, rfl, rfl, rfl, rfl, rfl, rfl⟩) fun _ => ?_
  split
  · exact .pure _
  · exact .throw _

theorem known_frames (found : Except UnknownModule α) : Frames (known found) := by
  cases found with
  | ok a => exact .pure a
  | error e => exact .throw _

theorem startBrain_frames (r : FuzzRequest) : Frames (startBrain r) := by
  refine Frames.bind (.modify fun _ => ⟨rfl, rfl, rfl, rfl, rfl, rfl, rfl⟩) fun _ => ?_
  refine Frames.get.bind fun d => ?_
  refine (known_frames _).bind fun brain => ?_
  refine (askBrain_frames _ _).bind fun (brain, reply) => ?_
  cases reply with
  | mark started =>
    dsimp only
    split
    · exact .bind (.throw _) fun _ => .pure _
    · exact .pure _
  | _ => exact .throw _

theorem startDetector_frames (r : FuzzRequest) : Frames (startDetector r) := by
  refine Frames.get.bind fun d => ?_
  refine (known_frames _).bind fun detector => ?_
  exact Frames.bind (.modify fun _ => ⟨rfl, rfl, rfl, rfl, rfl, rfl, rfl⟩) fun _ => .pure _

theorem askBatch_frames (brain : Worker) (r : FuzzRequest) : Frames (askBatch brain r) := by
  refine Frames.bind (.modify fun _ => ⟨rfl, rfl, rfl, rfl, rfl, rfl, rfl⟩) fun _ => ?_
  refine Frames.get.bind fun d => ?_
  refine (askBrain_frames _ _).bind fun (brain, reply) => ?_
  cases reply with
  | assembled tuples => exact .pure _
  | _ => exact .throw _

theorem prepare_frames (r : FuzzRequest) : Frames (prepare r) :=
  (startBrain_frames r).bind fun brain =>
    (startDetector_frames r).bind fun _ => (askBatch_frames brain r).bind fun _ => .pure _

theorem judge_frames (detector : Worker) (records : List FuzzRecord) :
    Frames (judge detector records) := by
  refine Frames.bind (.modify fun _ => ⟨rfl, rfl, rfl, rfl, rfl, rfl, rfl⟩) fun _ => ?_
  refine Frames.get.bind fun d => ?_
  refine Frames.bind (.modify fun _ => ⟨rfl, rfl, rfl, rfl, rfl, rfl, rfl⟩) fun _ => ?_
  split
  · exact .pure _
  · exact .pure _
  · exact .throw _

theorem run_askBrain {brain after : Worker} {ask : Request} {d : Dispatcher} {reply : ResponseBody}
    (h : brain.ask ask d.stageDeadline = (after, .ok reply)) :
    (askBrain brain ask).run.run d = (.ok (after, reply), { d with brain := some after }) := by
  rw [askBrain, run_get_bind, h]
  rfl

theorem askBrain_ok {brain after : Worker} {ask : Request} {d next : Dispatcher} {reply : ResponseBody}
    (h : (askBrain brain ask).run.run d = (.ok (after, reply), next)) :
    brain.ask ask d.stageDeadline = (after, .ok reply) := by
  rw [askBrain, run_get_bind] at h
  rcases hask : brain.ask ask d.stageDeadline with ⟨worker, answer⟩
  rw [hask, run_modify_bind] at h
  cases answer with
  | error e => cases h
  | ok body =>
    cases h
    rfl

theorem known_ok {found : Except UnknownModule α} {a : α} {d next : Dispatcher}
    (h : (known found).run.run d = (.ok a, next)) : found = .ok a ∧ next = d := by
  cases found with
  | error e => cases h
  | ok b =>
    cases h
    exact ⟨rfl, rfl⟩

/-- The brain that a catalog has for a request, once it has started the generators of the request. Some of
    them may have failed, though not all. -/
inductive BrainStarted (c : Catalog) (deadline : Nat) (r : FuzzRequest) (brain : Worker) : Prop where
  | intro {plugin : Brain} {started : GenerationMap} (known : c.brain r.brain = .ok plugin)
      (reply : (Worker.brain (BrainWorker.start r.brain plugin c)).ask (.initializeBrain r.generators)
        deadline = (brain, .ok (.mark started)))
      (enough : started = [] → r.generators = [])

theorem run_startBrain {d : Dispatcher} {r : FuzzRequest} {brain : Worker}
    (h : BrainStarted d.catalog d.stageDeadline r brain) :
    (startBrain r).run.run d =
      (.ok brain, { d with state := .initializing r.brain, brain := some brain }) := by
  obtain @⟨plugin, started, hknown, hreply, henough⟩ := h
  have hsome : (started.isEmpty && !r.generators.isEmpty) = false := by
    simpa using henough
  rw [startBrain, run_modify_bind, run_get_bind]
  simp only [hknown]
  rw [bind_of_ok (a := plugin) (x := known (.ok plugin)) rfl,
    bind_of_ok (run_askBrain (d := { d with state := .initializing r.brain }) hreply)]
  simp only [hsome, Bool.false_eq_true, if_false]
  rfl

theorem startBrain_ok {d after : Dispatcher} {r : FuzzRequest} {brain : Worker}
    (h : (startBrain r).run.run d = (.ok brain, after)) :
    BrainStarted d.catalog d.stageDeadline r brain := by
  rw [startBrain, run_modify_bind, run_get_bind] at h
  obtain ⟨plugin, _, hplugin, h⟩ := bind_ok h
  obtain ⟨hknown, rfl⟩ := known_ok hplugin
  obtain ⟨⟨asked, reply⟩, _, hask, h⟩ := bind_ok h
  have hreply := askBrain_ok hask
  cases reply with
  | mark started =>
    dsimp only at h
    split at h
    · cases h
    · rename_i henough
      cases h
      exact .intro hknown hreply (by simpa using henough)
  | _ => cases h

theorem run_startDetector {d : Dispatcher} {r : FuzzRequest} {detector : Detector}
    (h : d.catalog.detector r.detector = .ok detector) :
    (startDetector r).run.run d = (.ok (.detector (DetectorWorker.start r.detector detector)),
      { d with detector := some (.detector (DetectorWorker.start r.detector detector)) }) := by
  rw [startDetector, run_get_bind, h]
  rfl

theorem startDetector_ok {d after : Dispatcher} {r : FuzzRequest} {worker : Worker}
    (h : (startDetector r).run.run d = (.ok worker, after)) :
    ∃ detector, d.catalog.detector r.detector = .ok detector ∧
      worker = .detector (DetectorWorker.start r.detector detector) := by
  rw [startDetector, run_get_bind] at h
  obtain ⟨detector, _, hdetector, h⟩ := bind_ok h
  cases h
  exact ⟨detector, (known_ok hdetector).1, rfl⟩

/-- What the brain answers about argument lists decides whether there are any. -/
theorem run_askBatch (brain : Worker) (r : FuzzRequest) (d : Dispatcher) :
    ∃ after, (askBatch brain r).run.run d =
      (match (brain.ask (.handleGeneration ⟨r.batchSize, d.previousBatch r.target⟩) d.stageDeadline).2 with
        | .ok (.assembled tuples) => .ok tuples
        | .ok other => .error (.unexpectedReply r.brain other.className "handleGeneration")
        | .error e => .error (.worker e), after) := by
  rw [askBatch, run_modify_bind, run_get_bind, run_bind, askBrain, run_get_bind]
  dsimp only [previousBatch]
  rcases brain.ask (.handleGeneration ⟨r.batchSize, d.previous.lookup r.target⟩) d.stageDeadline
    with ⟨worker, _ | reply⟩
  · exact ⟨_, rfl⟩
  cases reply with
  | _ => exact ⟨_, rfl⟩

theorem askBatch_ok {brain : Worker} {r : FuzzRequest} {d after : Dispatcher}
    {tuples : List (List Value)} (h : (askBatch brain r).run.run d = (.ok tuples, after)) :
    (brain.ask (.handleGeneration ⟨r.batchSize, d.previousBatch r.target⟩) d.stageDeadline).2 =
      .ok (.assembled tuples) := by
  obtain ⟨_, hrun⟩ := run_askBatch brain r d
  rw [hrun] at h
  rcases hanswer : (brain.ask (.handleGeneration ⟨r.batchSize, d.previousBatch r.target⟩)
    d.stageDeadline).2 with _ | reply
  · rw [hanswer] at h
    cases h
  · rw [hanswer] at h
    cases reply <;> cases h
    rfl

/-- The brain that a catalog has for a request answers with argument lists: it has been started with the
    generators of the request, and is shown the records of the last run on the target. -/
def BrainAnswers (c : Catalog) (deadline : Nat) (previous : Option (List FuzzRecord)) (r : FuzzRequest)
    (tuples : List (List Value)) : Prop :=
  ∃ brain : Worker, BrainStarted c deadline r brain ∧
    (brain.ask (.handleGeneration ⟨r.batchSize, previous⟩) deadline).2 = .ok (.assembled tuples)

/-- What a run executes is what its brain answers, and what judges it is the detector that the catalog has
    for the request. Nothing else keeps a run from its executions. -/
theorem prepare_iff {r : FuzzRequest} {d : Dispatcher} {worker : Worker} {tuples : List (List Value)} :
    (∃ after, (prepare r).run.run d = (.ok (worker, tuples), after)) ↔
      (∃ detector, d.catalog.detector r.detector = .ok detector ∧
        worker = .detector (DetectorWorker.start r.detector detector)) ∧
      BrainAnswers d.catalog d.stageDeadline (d.previousBatch r.target) r tuples := by
  constructor
  · rintro ⟨after, h⟩
    obtain ⟨brain, started, hbrain, h⟩ := bind_ok h
    obtain ⟨_, ready, hdetector, h⟩ := bind_ok h
    obtain ⟨_, _, hbatch, h⟩ := bind_ok h
    cases h
    have hstarted := (startBrain_frames r).ok hbrain
    have hready := hstarted.trans ((startDetector_frames r).ok hdetector)
    have hanswer := askBatch_ok hbatch
    rw [previousBatch, hready.previous, hready.stageDeadline] at hanswer
    have hfound := startDetector_ok hdetector
    rw [hstarted.catalog] at hfound
    exact ⟨hfound, brain, startBrain_ok hbrain, hanswer⟩
  · rintro ⟨⟨detector, hdetector, rfl⟩, brain, hbrain, hanswer⟩
    let started : Dispatcher := { d with state := .initializing r.brain, brain := some brain }
    let ready : Dispatcher :=
      { started with detector := some (.detector (DetectorWorker.start r.detector detector)) }
    obtain ⟨after, hbatch⟩ := run_askBatch brain r ready
    have hshown : (brain.ask (.handleGeneration ⟨r.batchSize, ready.previousBatch r.target⟩)
        ready.stageDeadline).2 = .ok (.assembled tuples) := hanswer
    rw [hshown] at hbatch
    refine ⟨after, ?_⟩
    rw [prepare, bind_of_ok (run_startBrain hbrain),
      bind_of_ok (run_startDetector (d := started) hdetector), bind_of_ok hbatch]
    rfl

end Dispatcher
end PageProbe
