import Mathlib.Algebra.Order.Field.Rat
import Mathlib.Tactic.GCongr
import Mathlib.Tactic.Positivity
import PageProbe.Proofs.Session.Executions
import PageProbe.Proofs.Session.Stages

namespace PageProbe

open Json (Value)

namespace Progress

/-- The fraction itself. -/
def value (p : Progress) : ℚ := (if p.isNegative then -1 else 1) * p.num / p.den

/-- What is shown of a run with some executions before its detection. -/
def beforeVerdicts (executions : Nat) : List Progress :=
  start :: (List.range' 1 executions).map (ofSteps · (executions + 1))

/-- Values that climb from nothing, are announced as they are, and do not tell of an end. -/
structure Climbs (shown : List Progress) : Prop where
  start : (shown.map value).head? = some 0
  increasing : (shown.map value).Pairwise (· < ·)
  unfinished : ∀ x ∈ shown.map value, x < 100
  told : ∀ p ∈ shown, p.update = .progress p

theorem ofSteps_value (done steps : Nat) : (ofSteps done steps).value = (done : ℚ) * 100 / steps := by
  simp [value, ofSteps]

theorem whole_value : whole.value = 100 := by
  simp [value, whole]

/-- The start is the step before the first one. -/
theorem beforeVerdicts_values (n : Nat) :
    (beforeVerdicts n).map value =
      (List.range (n + 1)).map fun k : Nat => (k : ℚ) * 100 / (n + 1 : ℕ) := by
  rw [List.range_eq_range', List.range'_succ, beforeVerdicts, List.map_cons, List.map_cons, List.map_map]
  simp only [Function.comp_def, ofSteps_value]
  simp [start, value]

theorem beforeVerdicts_increasing (n : Nat) : ((beforeVerdicts n).map value).Pairwise (· < ·) := by
  rw [beforeVerdicts_values, List.pairwise_map]
  refine List.pairwise_lt_range.imp fun {j k} hjk => ?_
  gcongr

theorem beforeVerdicts_lt {n : Nat} {x : ℚ} (hx : x ∈ (beforeVerdicts n).map value) : x < 100 := by
  rw [beforeVerdicts_values] at hx
  obtain ⟨k, hk, rfl⟩ := List.mem_map.mp hx
  have hlt : (k : ℚ) < (n + 1 : ℕ) := Nat.cast_lt.mpr (List.mem_range.mp hk)
  rw [div_lt_iff₀ (by positivity), mul_comm]
  gcongr

/-- As long as something is left to be done, the value itself is announced. -/
theorem beforeVerdicts_update {n : Nat} {p : Progress} (hp : p ∈ beforeVerdicts n) :
    p.update = .progress p := by
  have hlt : p.num < 100 * p.den := by
    rcases List.mem_cons.mp hp with rfl | hp
    · decide
    · obtain ⟨k, hk, rfl⟩ := List.mem_map.mp hp
      have hk := (List.mem_range'_1.mp hk).2
      simp only [ofSteps]
      omega
  rw [update, isWhole, if_neg (by simp [hlt])]

theorem beforeVerdicts_climbs (n : Nat) : Climbs (beforeVerdicts n) where
  start := by simp [beforeVerdicts, value, Progress.start]
  increasing := beforeVerdicts_increasing n
  unfinished _ := beforeVerdicts_lt
  told _ := beforeVerdicts_update

end Progress

/-- A record as it was before anyone judged it. -/
def FuzzRecord.unjudged (r : FuzzRecord) : FuzzRecord := { r with detection := none }

namespace IdSupply

theorem tag_args (s : IdSupply) (lists : List (Option (List Value))) :
    (s.tag lists).2.map (·.args) = lists := by
  induction lists generalizing s with
  | nil => rfl
  | cons args rest ih =>
    rw [tag, List.map_cons]
    exact congrArg (args :: ·) (ih _)

end IdSupply

namespace Dispatcher

/-- A verdict changes no more than the detection. -/
theorem giveVerdict_unjudged (judged : FuzzRecord) (records : List FuzzRecord) :
    (giveVerdict judged records).map FuzzRecord.unjudged = records.map FuzzRecord.unjudged := by
  induction records with
  | nil => rfl
  | cons r rest ih =>
    rw [giveVerdict]
    split
    · rfl
    · rw [List.map_cons, List.map_cons, ih]

theorem merge_unjudged (records judged : List FuzzRecord) :
    (merge records judged).map FuzzRecord.unjudged = records.map FuzzRecord.unjudged := by
  induction judged generalizing records with
  | nil => rfl
  | cons j judged ih => exact (ih _).trans (giveVerdict_unjudged j records)

theorem judge_unjudged {detector : Worker} {records judged : List FuzzRecord} {d after : Dispatcher}
    (h : (judge detector records).run.run d = (.ok judged, after)) :
    judged.map FuzzRecord.unjudged = records.map FuzzRecord.unjudged := by
  obtain ⟨_, _, _, h⟩ := bind_ok h
  obtain ⟨current, _, _, h⟩ := bind_ok h
  rcases hask : detector.ask (.detect records) current.stageDeadline with ⟨worker, answer⟩
  rw [hask] at h
  obtain ⟨_, _, _, h⟩ := bind_ok h
  cases answer with
  | error e => cases h
  | ok body =>
    cases body with
    | detected answer =>
      cases h
      exact merge_unjudged records answer
    | _ =>
      cases h
      rfl

/-- Records of the executions of a batch, which nobody has judged. What other tuples are reported to
    have come to does not matter. -/
structure RecordsOf (deadline : Nat) (batch : List Tuple) (es : List Launched)
    (records : List FuzzRecord) : Prop where
  length : records.length = batch.length
  record : ∀ (k : Nat) (t : Tuple) (e : Launched), batch[k]? = some t → es[k]? = some e →
    ∃ response, records[k]? = some ⟨t.uuid, t.args, response, none⟩ ∧
      e.Responds t.uuid deadline response ∧ (e.only t.uuid).Responds t.uuid deadline response

theorem zipWith_recordFor_unjudged (deadline : Nat) (batch : List Tuple) (es : List Launched) :
    (List.zipWith (recordFor deadline) batch es).map FuzzRecord.unjudged =
      List.zipWith (recordFor deadline) batch es := by
  rw [List.map_zipWith]
  rfl

/-- What comes after the executions: the records are kept, and then judged. -/
theorem run_conclude (r : FuzzRequest) (detector : Worker) (records : List FuzzRecord) (d : Dispatcher) :
    (conclude r detector records).run.run d =
      match (judge detector records).run.run (d.keep r.target records) with
      | (.ok judged, d) => (.ok ⟨r.target, judged⟩, d.finish judged)
      | (.error e, d) => (.error e, d) := by
  rw [conclude, run_bind]
  change (judge detector records >>= _).run.run (d.keep r.target records) = _
  rw [run_bind]
  rcases (judge detector records).run.run (d.keep r.target records) with ⟨_ | _, _⟩ <;> rfl

theorem previousBatch_keep (d : Dispatcher) (target : String) (records : List FuzzRecord) :
    (d.keep target records).previousBatch target = some records := by
  simp [previousBatch, keep]

/-- How a run ends whose executions have left some records. -/
def endOf (d : Dispatcher) (r : FuzzRequest) (detector : Worker) (records : List FuzzRecord) :
    Dispatcher × Except DispatchError FuzzOutcome :=
  match (judge detector records).run.run (d.keep r.target records) with
  | (.ok judged, d) => ({ d.finish judged with state := .idle }, .ok ⟨r.target, judged⟩)
  | (.error e, d) => (d.release, .error e)

/-- Whatever the detector answers, the records are kept for the next run. -/
theorem endOf_previousBatch (d : Dispatcher) (r : FuzzRequest) (detector : Worker)
    (records : List FuzzRecord) : (d.endOf r detector records).1.previousBatch r.target = some records := by
  have hkept := judge_frames detector records (d.keep r.target records)
  rw [endOf, ← d.previousBatch_keep r.target records]
  rcases hjudge : (judge detector records).run.run (d.keep r.target records) with ⟨_ | _, judgedAt⟩
  all_goals
    rw [hjudge] at hkept
    exact congrArg (List.lookup r.target) hkept.previous

/-- A run ends with verdicts when its detector has answered, and with what has become of the detector when
    it has not. -/
theorem endOf_answer (d : Dispatcher) (r : FuzzRequest) (detector : Worker) (records : List FuzzRecord) :
    match (detector.ask (.detect records) d.stageDeadline).2 with
    | .ok _ => ∃ outcome, (d.endOf r detector records).2 = .ok outcome
    | .error w => (d.endOf r detector records).2 = .error (.worker w) := by
  rw [endOf, judge, run_modify_bind, run_get_bind]
  dsimp only [keep]
  rcases detector.ask (.detect records) d.stageDeadline with ⟨worker, _ | reply⟩
  · rfl
  cases reply with
  | _ => exact ⟨_, rfl⟩

/-- The end of the progress is told with the verdicts, and not at all without them. -/
theorem endOf_cases {d : Dispatcher} {s : Session} {shown : List Progress} {records : List FuzzRecord}
    (hshown : d.session = s.showAll shown) (hrecords : records.map FuzzRecord.unjudged = records)
    (r : FuzzRequest) (detector : Worker) :
    match (d.endOf r detector records).2 with
    | .ok outcome =>
      outcome.target = r.target ∧ outcome.records.map FuzzRecord.unjudged = records ∧
        (d.endOf r detector records).1.injector = d.injector ∧
        (d.endOf r detector records).1.session.notices.toList =
          s.notices.toList ++ shown.flatMap s.progressNotices ++
            (s.storeRecords outcome.records).progressNotices .whole
    | .error _ =>
      (d.endOf r detector records).1.session.notices.toList =
        s.notices.toList ++ shown.flatMap s.progressNotices := by
  have hkept := judge_frames detector records (d.keep r.target records)
  rw [endOf]
  rcases hjudge : (judge detector records).run.run (d.keep r.target records) with ⟨e | judged, judgedAt⟩
  all_goals
    rw [hjudge] at hkept
    have hsession : judgedAt.session = s.showAll shown := hkept.session.trans hshown
  · change judgedAt.session.notices.toList = _
    rw [hsession, Session.showAll_notices]
  · refine ⟨rfl, (judge_unjudged hjudge).trans hrecords, hkept.injector, ?_⟩
    change ((judgedAt.session.storeRecords judged).showProgress .whole).notices.toList = _
    rw [Session.showProgress_notices, hsession, Session.showAll_progressNotices]
    exact congrArg (· ++ _) (Session.showAll_notices s shown)

/-- What a run comes to once its stages up to the executions have succeeded. -/
theorem dispatch_of_prepare {d prepared : Dispatcher} {tree : FunctionTree} {r : FuzzRequest}
    {i : Injector} {detector : Worker} {tuples : List (List Value)}
    (hselect : d.release.injector.select tree r.target r.dependencyArgs = .ok i)
    (hprepare : (prepare r).run.run { d.release.showProgress .start with injector := i } =
      (.ok (detector, tuples), prepared)) (l : Launcher σ) (memory : σ) :
    d.dispatch tree l memory r =
      let loaded := prepared.loadBatch tuples
      let executed := executeAll l loaded.2.length 0 loaded.1 memory loaded.2
      ((executed.1.endOf r detector executed.2.2).1, executed.2.1,
        (executed.1.endOf r detector executed.2.2).2) := by
  have hchosen : (d.release.showProgress .start).injector.select tree r.target r.dependencyArgs = .ok i :=
    hselect
  simp only [dispatch, hchosen, attempt, hprepare]
  rw [run_conclude]
  generalize executeAll l _ 0 _ memory _ = executed
  rw [endOf]
  rcases (judge detector executed.2.2).run.run (executed.1.keep r.target executed.2.2)
    with ⟨_ | _, _⟩ <;> rfl

/-- A dispatcher that has executed a batch: argument lists with ids and the baseline behind them. There is a
    launch and a record written from it for each tuple, and nothing else has changed but what is shown. -/
structure Executed (d : Dispatcher) (i : Injector) (tuples : List (List Value)) (executed : Dispatcher)
    (batch : List Tuple) (es : List Launched) (records : List FuzzRecord) : Prop where
  tagged : batch = (d.ids.tag (tuples.map some ++ [none])).2
  launched : es.length = batch.length
  recorded : records = List.zipWith (recordFor d.tupleDeadline) batch es
  scheduled : ∃ events : List InjectorEvent,
    events.filter InjectorEvent.isControl = .load batch :: InjectorEvent.ofExecutions batch ∧
      executed.injector = i.run events
  shown : executed.session = d.session.showAll (Progress.beforeVerdicts batch.length)
  previous : executed.previous = d.previous
  settings : executed.settings = d.settings

namespace Executed

variable {d executed : Dispatcher} {i : Injector} {tuples : List (List Value)} {batch : List Tuple}
  {es : List Launched} {records : List FuzzRecord}

theorem batch_args (h : d.Executed i tuples executed batch es records) :
    batch.map (·.args) = tuples.map some ++ [none] := by
  rw [h.tagged]
  exact d.ids.tag_args _

theorem uuids (h : d.Executed i tuples executed batch es records) :
    records.map (·.uuid) = batch.map (·.uuid) := by
  rw [h.recorded]
  exact (zipWith_recordFor _ h.launched).1

theorem args (h : d.Executed i tuples executed batch es records) :
    records.map (·.args) = batch.map (·.args) := by
  rw [h.recorded]
  exact (zipWith_recordFor _ h.launched).2

theorem unjudged (h : d.Executed i tuples executed batch es records) :
    records.map FuzzRecord.unjudged = records := by
  rw [h.recorded, zipWith_recordFor_unjudged]

theorem recordsOf (h : d.Executed i tuples executed batch es records) :
    RecordsOf d.tupleDeadline batch es records where
  length := by rw [h.recorded, List.length_zipWith, h.launched, Nat.min_self]
  record := by
    intro k t e ht he
    refine ⟨e.responseTo t.uuid d.tupleDeadline, ?_, e.responseTo_responds t.uuid _, ?_⟩
    · rw [h.recorded, List.getElem?_zipWith, ht, he]
      rfl
    · rw [← e.responseTo_only]
      exact (e.only t.uuid).responseTo_responds t.uuid _

theorem stageDeadline (h : d.Executed i tuples executed batch es records) :
    executed.stageDeadline = d.stageDeadline := congrArg (·.2.2) h.settings

end Executed

/-- Once the stages before them have succeeded, executions depend on nothing that these stages do. -/
theorem executeAll_executed {d prepared : Dispatcher} {r : FuzzRequest} {i : Injector} {detector : Worker}
    {tuples : List (List Value)}
    (hprepare : (prepare r).run.run { d.release.showProgress .start with injector := i } =
      (.ok (detector, tuples), prepared)) (l : Launcher σ) (memory : σ) :
    let loaded := prepared.loadBatch tuples
    let executed := executeAll l loaded.2.length 0 loaded.1 memory loaded.2
    ∃ es, d.Executed i tuples executed.1 loaded.2 es executed.2.2 ∧
      ∀ log, executeAll l.traced loaded.2.length 0 loaded.1 (memory, log) loaded.2 =
        (executed.1, (executed.2.1, log ++ es.flatMap ContextEvent.ofExecution), executed.2.2) := by
  intro loaded executed
  have hkept := (prepare_frames r).ok hprepare
  have htagged : loaded.2 = (d.ids.tag (tuples.map some ++ [none])).2 :=
    congrArg (fun s : IdSupply => (s.tag (tuples.map some ++ [none])).2) hkept.ids
  have hinjector : loaded.1.injector = i.load loaded.2 := congrArg (Injector.load · _) hkept.injector
  have hsession : loaded.1.session = d.session.showProgress .start := hkept.session
  have hdeadline : loaded.1.tupleDeadline = d.tupleDeadline := hkept.tupleDeadline
  obtain ⟨es, hlength, hrecords, htraced⟩ :=
    executeAll_records l loaded.2.length 0 loaded.1 memory loaded.2
  obtain ⟨state, events, hevents, hexecuted⟩ :=
    executeAll_dispatcher l loaded.2.length 0 loaded.1 memory loaded.2
  rw [hdeadline] at hrecords
  refine ⟨es, ⟨htagged, hlength, hrecords, ⟨.load loaded.2 :: events, ?_, ?_⟩, ?_, ?_, ?_⟩, htraced⟩
  · rw [List.filter_cons_of_pos rfl, hevents]
  · rw [hexecuted, hinjector]
    rfl
  · rw [hexecuted, hsession]
    rfl
  · exact (congrArg Dispatcher.previous hexecuted).trans hkept.previous
  · exact (congrArg Dispatcher.settings hexecuted).trans hkept.settings

/-- A run whose stages before the executions have succeeded executes a batch, and ends as its detection
    does. A launcher that writes down what happens takes the same way. -/
theorem dispatch_executed {d prepared : Dispatcher} {tree : FunctionTree} {r : FuzzRequest} {i : Injector}
    {detector : Worker} {tuples : List (List Value)}
    (hselect : d.release.injector.select tree r.target r.dependencyArgs = .ok i)
    (hprepare : (prepare r).run.run { d.release.showProgress .start with injector := i } =
      (.ok (detector, tuples), prepared)) (l : Launcher σ) (memory : σ) :
    ∃ (executed : Dispatcher) (batch : List Tuple) (es : List Launched) (records : List FuzzRecord),
      d.Executed i tuples executed batch es records ∧
      (d.dispatch tree l memory r).1 = (executed.endOf r detector records).1 ∧
      (d.dispatch tree l memory r).2.2 = (executed.endOf r detector records).2 ∧
      ∀ log, d.dispatch tree l.traced (memory, log) r =
        ((d.dispatch tree l memory r).1,
          ((d.dispatch tree l memory r).2.1, log ++ es.flatMap ContextEvent.ofExecution),
          (d.dispatch tree l memory r).2.2) := by
  obtain ⟨es, hexecuted, htraced⟩ := executeAll_executed hprepare l memory
  have hplain := dispatch_of_prepare hselect hprepare l memory
  refine ⟨_, _, es, _, hexecuted, congrArg Prod.fst hplain, congrArg (·.2.2) hplain, fun log => ?_⟩
  rw [dispatch_of_prepare hselect hprepare l.traced (memory, log), hplain]
  simp only [htraced]

/-- What a run can come to: its target is refused, or one of the stages before its executions fails, or it
    is executed and ends with what becomes of its detection. -/
theorem dispatch_cases (d : Dispatcher) (tree : FunctionTree) (r : FuzzRequest) (l : Launcher σ)
    (memory : σ) :
    (∃ e, d.dispatch tree l memory r = (d.release.showProgress .start, memory, .error (.target e))) ∨
      ∃ i, d.release.injector.select tree r.target r.dependencyArgs = .ok i ∧
        ((∃ e prepared,
            (prepare r).run.run { d.release.showProgress .start with injector := i } = (.error e, prepared) ∧
            d.dispatch tree l memory r = (prepared.release, memory, .error e)) ∨
          ∃ detector tuples prepared,
            (prepare r).run.run { d.release.showProgress .start with injector := i } =
              (.ok (detector, tuples), prepared) ∧
            let loaded := prepared.loadBatch tuples
            let executed := executeAll l loaded.2.length 0 loaded.1 memory loaded.2
            d.dispatch tree l memory r =
              ((executed.1.endOf r detector executed.2.2).1, executed.2.1,
                (executed.1.endOf r detector executed.2.2).2)) := by
  cases hselect : d.release.injector.select tree r.target r.dependencyArgs with
  | error e =>
    have hrefused : (d.release.showProgress .start).injector.select tree r.target r.dependencyArgs =
        .error e := hselect
    exact .inl ⟨e, by simp only [dispatch, hrefused]⟩
  | ok i =>
    have hchosen : (d.release.showProgress .start).injector.select tree r.target r.dependencyArgs =
        .ok i := hselect
    rcases hprepare : (prepare r).run.run { d.release.showProgress .start with injector := i }
      with ⟨e | ⟨detector, tuples⟩, prepared⟩
    · exact .inr ⟨i, rfl, .inl ⟨e, prepared, hprepare, by simp only [dispatch, hchosen, attempt, hprepare]⟩⟩
    · exact .inr ⟨i, rfl, .inr ⟨detector, tuples, prepared, hprepare,
        dispatch_of_prepare hselect hprepare l memory⟩⟩

/-- A run whose target is found and whose plugins are known and ready: its brain has answered with argument
    lists. -/
structure Prepared (d : Dispatcher) (tree : FunctionTree) (r : FuzzRequest) (i : Injector)
    (detector : Detector) (tuples : List (List Value)) : Prop where
  target : d.release.injector.select tree r.target r.dependencyArgs = .ok i
  detector : d.catalog.detector r.detector = .ok detector
  brain : BrainAnswers d.catalog d.stageDeadline (d.previousBatch r.target) r tuples

theorem Prepared.prepare_ok {d : Dispatcher} {tree : FunctionTree} {r : FuzzRequest} {i : Injector}
    {detector : Detector} {tuples : List (List Value)} (h : d.Prepared tree r i detector tuples) :
    ∃ prepared, (prepare r).run.run { d.release.showProgress .start with injector := i } =
      (.ok (.detector (DetectorWorker.start r.detector detector), tuples), prepared) :=
  prepare_iff.mpr ⟨⟨detector, h.detector, rfl⟩, h.brain⟩

/-- A run that is not prepared fails before anything is executed: no context is launched, and what is
    remembered of earlier runs stays. -/
theorem dispatch_unprepared {d : Dispatcher} {tree : FunctionTree} {r : FuzzRequest}
    (hnever : ∀ i detector tuples, ¬d.Prepared tree r i detector tuples) (l : Launcher σ) (memory : σ) :
    ∃ failed e, d.dispatch tree l memory r = (failed, memory, .error e) ∧
      (∀ log, d.dispatch tree l.traced (memory, log) r = (failed, (memory, log), .error e)) ∧
      failed.previousBatch = d.previousBatch := by
  cases hselect : d.release.injector.select tree r.target r.dependencyArgs with
  | error e =>
    have hrefused : (d.release.showProgress .start).injector.select tree r.target r.dependencyArgs =
        .error e := hselect
    exact ⟨d.release.showProgress .start, .target e, by simp only [dispatch, hrefused],
      fun log => by simp only [dispatch, hrefused], rfl⟩
  | ok i =>
    have hchosen : (d.release.showProgress .start).injector.select tree r.target r.dependencyArgs =
        .ok i := hselect
    have hkept := prepare_frames r { d.release.showProgress .start with injector := i }
    rcases hprepare : (prepare r).run.run { d.release.showProgress .start with injector := i }
      with ⟨e | ⟨worker, tuples⟩, prepared⟩
    · rw [hprepare] at hkept
      exact ⟨prepared.release, e, by simp only [dispatch, hchosen, attempt, hprepare],
        fun log => by simp only [dispatch, hchosen, attempt, hprepare],
        congrArg (fun previous target => previous.lookup target) hkept.previous⟩
    · obtain ⟨⟨detector, hdetector, _⟩, hbrain⟩ := prepare_iff.mp ⟨prepared, hprepare⟩
      exact absurd ⟨hselect, hdetector, hbrain⟩ (hnever i detector tuples)

/-- Once the target is found, the detector is known and the brain has answered, nothing keeps a run from
    its detection. By then it has executed what the brain has answered and then the baseline, one after
    another and each for itself, whatever the contexts do and however many of them fail. The record of a
    tuple tells what its own execution came to, and the detector adds nothing but verdicts. The progress
    climbs from nothing; all of it is reached when the detector has answered, and only then. Any other run
    fails before anything is executed. Ids need not differ, and nothing is assumed of the plugins. -/
theorem dispatch_executions (d : Dispatcher) (tree : FunctionTree) (r : FuzzRequest) (l : Launcher σ)
    (memory : σ) :
    (∀ i detector tuples, d.Prepared tree r i detector tuples →
      ∃ (batch : List Tuple) (es : List Launched) (events : List InjectorEvent)
        (records : List FuzzRecord) (shown : List Progress),
        batch = (d.ids.tag (tuples.map some ++ [none])).2 ∧
        batch.map (·.args) = tuples.map some ++ [none] ∧
        es.length = batch.length ∧
        (∀ log, d.dispatch tree l.traced (memory, log) r =
          ((d.dispatch tree l memory r).1,
            ((d.dispatch tree l memory r).2.1, log ++ es.flatMap ContextEvent.ofExecution),
            (d.dispatch tree l memory r).2.2)) ∧
        ContextEvent.OneAtATime (es.flatMap ContextEvent.ofExecution) ∧
        events.filter InjectorEvent.isControl = .load batch :: InjectorEvent.ofExecutions batch ∧
        RecordsOf d.tupleDeadline batch es records ∧
        (d.dispatch tree l memory r).1.previousBatch r.target = some records ∧
        Progress.Climbs shown ∧ Progress.whole.value = 100 ∧
        match ((Worker.detector (DetectorWorker.start r.detector detector)).ask (.detect records)
          d.stageDeadline).2 with
        | .ok _ =>
          ∃ outcome, (d.dispatch tree l memory r).2.2 = .ok outcome ∧
            outcome.target = r.target ∧ outcome.records.map FuzzRecord.unjudged = records ∧
            (d.dispatch tree l memory r).1.injector = i.run events ∧
            (d.dispatch tree l memory r).1.session.notices.toList =
              d.session.notices.toList ++ shown.flatMap d.session.progressNotices ++
                (d.session.storeRecords outcome.records).progressNotices .whole
        | .error w =>
          (d.dispatch tree l memory r).2.2 = .error (.worker w) ∧
            (d.dispatch tree l memory r).1.session.notices.toList =
              d.session.notices.toList ++ shown.flatMap d.session.progressNotices) ∧
      ((∀ i detector tuples, ¬d.Prepared tree r i detector tuples) →
        ∃ failed e, d.dispatch tree l memory r = (failed, memory, .error e) ∧
          (∀ log, d.dispatch tree l.traced (memory, log) r = (failed, (memory, log), .error e)) ∧
          failed.previousBatch = d.previousBatch) := by
  refine ⟨fun i detector tuples hprepared => ?_, fun hnever => dispatch_unprepared hnever l memory⟩
  obtain ⟨prepared, hprepare⟩ := hprepared.prepare_ok
  obtain ⟨executed, batch, es, records, hexecuted, hleft, hcame, htrace⟩ :=
    dispatch_executed hprepared.target hprepare l memory
  obtain ⟨events, hevents, hinjector⟩ := hexecuted.scheduled
  refine ⟨batch, es, events, records, Progress.beforeVerdicts batch.length, hexecuted.tagged,
    hexecuted.batch_args, hexecuted.launched, htrace, ContextEvent.flatMap_ofExecution_oneAtATime es, hevents,
    hexecuted.recordsOf, ?_, Progress.beforeVerdicts_climbs _, Progress.whole_value, ?_⟩
  · rw [hleft]
    exact executed.endOf_previousBatch r _ records
  · have hanswer := executed.endOf_answer r (.detector (DetectorWorker.start r.detector detector)) records
    have hend := endOf_cases hexecuted.shown hexecuted.unjudged r
      (.detector (DetectorWorker.start r.detector detector))
    rw [hexecuted.stageDeadline] at hanswer
    rw [hleft, hcame, ← hinjector]
    split at hanswer
    · obtain ⟨outcome, houtcome⟩ := hanswer
      rw [houtcome] at hend
      exact ⟨outcome, houtcome, hend⟩
    · rw [hanswer] at hend
      exact ⟨hanswer, hend⟩

end Dispatcher

namespace Sample

/-- Answers one tuple, and asks no generator for anything. -/
def brain : Brain := {
  name := "brain", description := "one tuple", compatible := ["*"], check := none
  plan := fun _ _ => some [], assemble := fun _ _ => some [[.null]] }

def detector : Detector := ⟨"detector", "no verdicts", none, some⟩

def dispatcher : Dispatcher :=
  Dispatcher.start ⟨0, [], [("detector", detector)], [("brain", brain)]⟩
    ⟨fun n => String.ofList (List.replicate n 'u'), 0⟩ 100

def request : FuzzRequest := ⟨"/a.js/outer/inner", [], "detector", "brain", 1, [["1"]]⟩

/-- The first context is silent, and the others do not start. -/
def launcher : Launcher Bool where
  launch := fun first => .done (false, if first then .reporting [] else .failed "too many")
  teardown := .done

/-- Has two values, whatever it is asked for. -/
def letters : Generator where
  name := "letters"
  description := "two letters"
  compatibleBrains := []
  check := fun _ => none
  generate := fun _ _ _ => some [.string "x", .string "y"]

/-- Its brain asks a generator. -/
def lettered : Dispatcher :=
  Dispatcher.start ⟨0, [("letters", fun _ => letters)], [("detector", detector)],
    [(Combinations.moduleId, Combinations.brain)]⟩
    ⟨fun n => String.ofList (List.replicate n 'u'), 0⟩ 100

def spelling : FuzzRequest :=
  ⟨"/a.js/outer/inner", [(0, "letters")], "detector", Combinations.moduleId, 2, [["1"]]⟩

def reportFor (uuid value : String) : ExecutionReport :=
  ⟨uuid, .string value, some "<p>", none, none⟩

/-- The first context reports about a tuple that nobody knows, and then twice about its own. The second does
    not start. The third reports about an earlier tuple, and too late about its own. -/
def launches : List Launched :=
  [.reporting [⟨1, reportFor "stray" "s"⟩, ⟨2, reportFor "" "own"⟩, ⟨3, reportFor "" "again"⟩],
    .failed "too many", .reporting [⟨1, reportFor "" "earlier"⟩, ⟨101, reportFor "uu" "late"⟩]]

def mixed : Launcher Nat where
  launch := fun n => .done (n + 1, launches.getD n (.failed "no more"))
  teardown := .done

theorem lettered_prepared :
    lettered.Prepared tree spelling selected detector [[.string "x"], [.string "y"]] where
  target := rfl
  detector := rfl
  brain := ⟨_, .intro rfl rfl (nomatch ·), rfl⟩

/-- The catalog has no such brain. -/
def misspelt : FuzzRequest := { spelling with brain := "nobody" }

theorem lettered_unprepared (i : Injector) (detector : Detector) (tuples : List (List Value)) :
    ¬lettered.Prepared tree misspelt i detector tuples := by
  rintro ⟨_, _, _, ⟨hknown, _, _⟩, _⟩
  cases hknown

end Sample

theorem Dispatcher.dispatch_executions_mixed :
    ∃ records, (Sample.lettered.dispatch Sample.tree Sample.mixed 0 Sample.spelling).1.previousBatch
        "/a.js/outer/inner" = some records ∧ records.length = 3 ∧
      records[0]? = some ⟨"", some [.string "x"], (Sample.reportFor "" "own").response, none⟩ ∧
      records[1]? = some ⟨"u", some [.string "y"], (ExecutionReport.timedOut "u").response, none⟩ ∧
      records[2]? = some ⟨"uu", none, (ExecutionReport.timedOut "uu").response, none⟩ ∧
      ∃ failed e, Sample.lettered.dispatch Sample.tree Sample.mixed 0 Sample.misspelt = (failed, 0, .error e) := by
  obtain ⟨batch, es, _, records, _, hbatch, _, _, htrace, _, _, hrecords, hkept, _⟩ :=
    (dispatch_executions Sample.lettered Sample.tree Sample.spelling Sample.mixed 0).1 _ _ _
      Sample.lettered_prepared
  obtain ⟨failed, e, hfailed, _⟩ :=
    (dispatch_executions Sample.lettered Sample.tree Sample.misspelt Sample.mixed 0).2 Sample.lettered_unprepared
  have hlog : (Sample.lettered.dispatch Sample.tree Sample.mixed.traced (0, []) Sample.spelling).2.1.2 =
      Sample.launches.flatMap ContextEvent.ofExecution := rfl
  rw [htrace] at hlog
  have hes : es = Sample.launches := ContextEvent.flatMap_ofExecution_inj hlog
  have htagged : batch = [⟨"", some [.string "x"]⟩, ⟨"u", some [.string "y"]⟩, ⟨"uu", none⟩] := hbatch
  rw [hes, htagged] at hrecords
  have hrecord (k : Nat) {t : Tuple} {e : Launched}
      (ht : [⟨"", some [.string "x"]⟩, ⟨"u", some [.string "y"]⟩, ⟨"uu", none⟩][k]? = some t)
      (he : Sample.launches[k]? = some e) :
      records[k]? = some ⟨t.uuid, t.args, e.responseTo t.uuid 100, none⟩ := by
    obtain ⟨response, hkth, hresponds, _⟩ := hrecords.record k t e ht he
    rw [hkth, hresponds.eq_responseTo]
    rfl
  exact ⟨records, hkept, hrecords.length, hrecord 0 rfl rfl, hrecord 1 rfl rfl, hrecord 2 rfl rfl,
    failed, e, hfailed⟩

end PageProbe
