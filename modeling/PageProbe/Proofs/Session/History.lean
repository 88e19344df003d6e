import PageProbe.Proofs.Session.Aftermath
import PageProbe.Proofs.Session.Arguments

namespace PageProbe

open Json (Value)

/-- A run to be made: on the functions of which tree, with which request, and who launches its contexts. -/
structure Job where
  tree : FunctionTree
  request : FuzzRequest
  Memory : Type
  launcher : Launcher Memory
  memory : Memory

/-- What a run came to: its records when its executions were over, if it got that far, and its result. -/
structure RunEntry where
  target : String
  executed : Option (List FuzzRecord)
  result : Except DispatchError FuzzOutcome

/-- A run that does not get to the end of its executions fails. Any other run comes to the records of its
    executions with verdicts, or else its detector has not answered. -/
def RunEntry.Sound (stageDeadline : Nat) (e : RunEntry) : Prop :=
  match e.executed, e.result with
  | none, .error _ => True
  | none, .ok _ => False
  | some records, .error failure =>
    ∃ (detector : Worker) (w : WorkerError),
      (detector.ask (.detect records) stageDeadline).2 = .error w ∧ failure = .worker w
  | some records, .ok outcome =>
    outcome.target = e.target ∧ outcome.records.map FuzzRecord.unjudged = records

namespace Dispatcher

def perform (d : Dispatcher) (j : Job) : Dispatcher × Except DispatchError FuzzOutcome :=
  let (d, _, result) := d.dispatch j.tree j.launcher j.memory j.request
  (d, result)

/-- Makes runs one after another. -/
def performAll (d : Dispatcher) (jobs : List Job) : Dispatcher := jobs.foldl (fun d j => (d.perform j).1) d

/-- The dispatcher with the target of a run, if that can be chosen. -/
def chosen? (d : Dispatcher) (j : Job) : Option Dispatcher :=
  match d.release.injector.select j.tree j.request.target j.request.dependencyArgs with
  | .error _ => none
  | .ok i => some { d.release.showProgress .start with injector := i }

/-- The brain that is asked for the argument lists of a run. A run that fails before has none. -/
def askedBrain? (d : Dispatcher) (j : Job) : Option Worker :=
  (d.chosen? j).bind fun d =>
    match (startBrain j.request).run.run d with
    | (.error _, _) => none
    | (.ok brain, d) =>
      match (startDetector j.request).run.run d with
      | (.error _, _) => none
      | (.ok _, _) => some brain

/-- The records of a run when its executions are over. A run that fails before has none. -/
def executed? (d : Dispatcher) (j : Job) : Option (List FuzzRecord) :=
  (d.chosen? j).bind fun d =>
    match (prepare j.request).run.run d with
    | (.error _, _) => none
    | (.ok (_, tuples), d) =>
      let (d, batch) := d.loadBatch tuples
      some (executeAll j.launcher batch.length 0 d j.memory batch).2.2

/-- What runs come to that are made one after another. -/
def log (d : Dispatcher) : List Job → List RunEntry
  | [] => []
  | j :: rest => ⟨j.request.target, d.executed? j, (d.perform j).2⟩ :: (d.perform j).1.log rest

theorem perform_eq (d : Dispatcher) (j : Job) :
    d.perform j = ((d.dispatch j.tree j.launcher j.memory j.request).1,
      (d.dispatch j.tree j.launcher j.memory j.request).2.2) := by
  rw [perform]

theorem performAll_cons (d : Dispatcher) (j : Job) (rest : List Job) :
    d.performAll (j :: rest) = (d.perform j).1.performAll rest := by
  rw [performAll, List.foldl_cons, performAll]

/-- Choosing a target changes nothing that the stages of a run depend on. -/
theorem chosen?_eq_some {d next : Dispatcher} {j : Job} (h : d.chosen? j = some next) :
    (∃ i, d.release.injector.select j.tree j.request.target j.request.dependencyArgs = .ok i ∧
      next = { d.release.showProgress .start with injector := i }) ∧
      next.previous = d.previous ∧ next.stageDeadline = d.stageDeadline := by
  rw [chosen?] at h
  cases hselect : d.release.injector.select j.tree j.request.target j.request.dependencyArgs with
  | error e =>
    rw [hselect] at h
    cases h
  | ok i =>
    rw [hselect] at h
    cases h
    exact ⟨⟨i, rfl, rfl⟩, rfl, rfl⟩

theorem endOf_previous (d : Dispatcher) (r : FuzzRequest) (detector : Worker)
    (records : List FuzzRecord) :
    (d.endOf r detector records).1.previous = (d.keep r.target records).previous := by
  have hkept := judge_frames detector records (d.keep r.target records)
  rw [endOf]
  rcases hjudge : (judge detector records).run.run (d.keep r.target records) with ⟨_ | _, judgedAt⟩
  all_goals
    rw [hjudge] at hkept
    exact hkept.previous

theorem previousBatch_of_previous {d d' : Dispatcher} (h : d'.previous = d.previous) (target : String) :
    d'.previousBatch target = d.previousBatch target := by
  rw [previousBatch, previousBatch, h]

/-- Keeping the records of a target leaves those of the others alone. -/
theorem previousBatch_keep_of_ne (d : Dispatcher) {target other : String} (hne : other ≠ target)
    (records : List FuzzRecord) : (d.keep target records).previousBatch other = d.previousBatch other := by
  have hfilter (kept : List (String × List FuzzRecord)) :
      (kept.filter (·.1 != target)).lookup other = kept.lookup other := by
    induction kept with
    | nil => rfl
    | cons first rest ih =>
      by_cases hfirst : first.1 = target
      · rw [List.filter_cons_of_neg (by simp [hfirst]), ih, List.lookup_cons,
          beq_eq_false_iff_ne.mpr (hfirst ▸ hne)]
      · rw [List.filter_cons_of_pos (by simp [hfirst]), List.lookup_cons, List.lookup_cons, ih]
  rw [previousBatch, keep, List.lookup_cons, beq_eq_false_iff_ne.mpr hne]
  exact hfilter d.previous

/-- A run that fails before its executions are over fails altogether, and nothing is kept of it. -/
theorem perform_of_unexecuted {d : Dispatcher} {j : Job} (h : d.executed? j = none) :
    (d.perform j).1.previous = d.previous ∧ ∃ e, (d.perform j).2 = .error e := by
  rcases d.dispatch_cases j.tree j.request j.launcher j.memory with ⟨e, hrun⟩ | ⟨i, hselect, hchosen⟩
  · rw [perform, hrun]
    exact ⟨rfl, _, rfl⟩
  · rcases hchosen with ⟨e, prepared, hprepare, hrun⟩ | ⟨detector, tuples, prepared, hprepare, _⟩
    · have hkept := prepare_frames j.request { d.release.showProgress .start with injector := i }
      rw [hprepare] at hkept
      rw [perform, hrun]
      exact ⟨hkept.previous, e, rfl⟩
    · rw [executed?, chosen?, hselect] at h
      simp only [Option.bind_some, hprepare] at h
      cases h

/-- Of any other run the records are kept as they were when the executions were over. -/
theorem perform_of_executed {d : Dispatcher} {j : Job} {records : List FuzzRecord}
    (h : d.executed? j = some records) :
    (d.perform j).1.previous = (d.keep j.request.target records).previous ∧
      RunEntry.Sound d.stageDeadline ⟨j.request.target, some records, (d.perform j).2⟩ := by
  rw [executed?] at h
  obtain ⟨next, hnext, h⟩ := Option.bind_eq_some_iff.mp h
  obtain ⟨⟨i, hselect, rfl⟩, hprevious, _⟩ := chosen?_eq_some hnext
  have hkept := prepare_frames j.request { d.release.showProgress .start with injector := i }
  rcases hprepare : (prepare j.request).run.run { d.release.showProgress .start with injector := i }
    with ⟨e | ⟨detector, tuples⟩, prepared⟩
  · rw [hprepare] at h
    cases h
  · rw [hprepare] at h hkept
    have hdispatch := dispatch_of_prepare hselect hprepare j.launcher j.memory
    obtain ⟨es, hexecuted, _⟩ := executeAll_executed hprepare j.launcher j.memory
    dsimp only at h hdispatch
    rw [perform, hdispatch]
    generalize (executeAll j.launcher (prepared.loadBatch tuples).2.length 0 (prepared.loadBatch tuples).1
      j.memory (prepared.loadBatch tuples).2) = executed at *
    cases h
    refine ⟨?_, ?_⟩
    · rw [executed.1.endOf_previous j.request detector executed.2.2, keep, keep, hexecuted.previous]
    · have hcases := endOf_cases hexecuted.shown hexecuted.unjudged j.request detector
      have hanswer := executed.1.endOf_answer j.request detector executed.2.2
      rw [hexecuted.stageDeadline] at hanswer
      rw [RunEntry.Sound]
      split at hanswer
      · obtain ⟨outcome, houtcome⟩ := hanswer
        rw [houtcome] at hcases
        simp only [houtcome]
        exact ⟨hcases.1, hcases.2.1⟩
      · rename_i w hask
        simp only [hanswer]
        exact ⟨detector, w, hask, rfl⟩

theorem perform_settings (d : Dispatcher) (j : Job) : (d.perform j).1.settings = d.settings := by
  rw [perform_eq]
  exact d.dispatch_settings j.tree j.request j.launcher j.memory

theorem performAll_settings (d : Dispatcher) (jobs : List Job) :
    (d.performAll jobs).settings = d.settings := by
  induction jobs generalizing d with
  | nil => rfl
  | cons j rest ih => rw [performAll_cons, ih, perform_settings]

theorem perform_stageDeadline (d : Dispatcher) (j : Job) :
    (d.perform j).1.stageDeadline = d.stageDeadline :=
  congrArg (·.2.2) (d.perform_settings j)

theorem performAll_stageDeadline (d : Dispatcher) (jobs : List Job) :
    (d.performAll jobs).stageDeadline = d.stageDeadline :=
  congrArg (·.2.2) (d.performAll_settings jobs)

/-- A run changes what is remembered of its own target, if its executions come to their end. -/
theorem previousBatch_perform (d : Dispatcher) (j : Job) (target : String) :
    (d.perform j).1.previousBatch target =
      if j.request.target = target then (d.executed? j).or (d.previousBatch target)
      else d.previousBatch target := by
  cases hexecuted : d.executed? j with
  | none =>
    rw [previousBatch_of_previous (perform_of_unexecuted hexecuted).1, Option.none_or, ite_self]
  | some records =>
    rw [previousBatch_of_previous (perform_of_executed hexecuted).1, Option.some_or]
    split
    · next htarget =>
      rw [← htarget]
      exact d.previousBatch_keep _ records
    · next hother => exact d.previousBatch_keep_of_ne (Ne.symm hother) records

/-- The records of the last of some runs on a target whose executions came to their end. -/
def lastExecuted (target : String) (entries : List RunEntry) : Option (List FuzzRecord) :=
  (entries.reverse.filter (·.target == target)).findSome? (·.executed)

theorem lastExecuted_cons (target : String) (e : RunEntry) (rest : List RunEntry) :
    lastExecuted target (e :: rest) =
      (lastExecuted target rest).or (if e.target = target then e.executed else none) := by
  rw [lastExecuted, lastExecuted, List.reverse_cons, List.filter_append, List.findSome?_append]
  by_cases htarget : e.target = target
  · rw [if_pos htarget, List.filter_cons_of_pos (by simp [htarget])]
    simp
  · rw [if_neg htarget, List.filter_cons_of_neg (by simp [htarget])]
    rfl

theorem isSome_lastExecuted_iff {target : String} {entries : List RunEntry} :
    (lastExecuted target entries).isSome = true ↔
      ∃ e ∈ entries, e.target = target ∧ e.executed.isSome = true := by
  rw [lastExecuted, List.findSome?_isSome_iff]
  simp [and_assoc]

/-- After any runs it is the last one that counts, and what there was before only without one. -/
theorem previousBatch_performAll_eq (d : Dispatcher) (jobs : List Job) (target : String) :
    (d.performAll jobs).previousBatch target =
      (lastExecuted target (d.log jobs)).or (d.previousBatch target) := by
  induction jobs generalizing d with
  | nil => rfl
  | cons j rest ih =>
    rw [performAll_cons, ih, log, lastExecuted_cons, previousBatch_perform, Option.or_assoc]
    split
    · rfl
    · rfl

/-- Every run comes to something sound. -/
theorem log_sound (d : Dispatcher) (jobs : List Job) : ∀ e ∈ d.log jobs, e.Sound d.stageDeadline := by
  induction jobs generalizing d with
  | nil => exact fun _ he => nomatch he
  | cons j rest ih =>
    intro e he
    rcases List.mem_cons.mp he with rfl | he
    · cases hexecuted : d.executed? j with
      | none =>
        obtain ⟨_, failure, hfailed⟩ := perform_of_unexecuted hexecuted
        rw [hfailed]
        exact trivial
      | some records => exact (perform_of_executed hexecuted).2
    · rw [← d.perform_stageDeadline j]
      exact ih _ e he

/-- Whatever comes of the executions of a batch, there is a record for each of its argument lists. -/
theorem executeAll_args (d : Dispatcher) (tuples : List (List Value)) (l : Launcher σ) (memory : σ) :
    (executeAll l (d.loadBatch tuples).2.length 0 (d.loadBatch tuples).1 memory
      (d.loadBatch tuples).2).2.2.map (·.args) = tuples.map some ++ [none] := by
  have hbatch : (d.loadBatch tuples).2.map (·.args) = tuples.map some ++ [none] := d.ids.tag_args _
  generalize (d.loadBatch tuples).2 = batch at *
  obtain ⟨es, hlength, hrecords, _⟩ :=
    executeAll_records l batch.length 0 (d.loadBatch tuples).1 memory batch
  rw [← hbatch, hrecords]
  exact (zipWith_recordFor _ hlength).2

/-- The brain of a run is shown what is remembered of the target. The run is executed if the brain answers
    with argument lists, and only then. -/
theorem executed?_of_askedBrain? (d : Dispatcher) (j : Job) :
    match d.askedBrain? j with
    | none => d.executed? j = none
    | some brain =>
      match (brain.ask (.handleGeneration ⟨j.request.batchSize, d.previousBatch j.request.target⟩)
        d.stageDeadline).2 with
      | .ok (.assembled tuples) =>
        ∃ records, d.executed? j = some records ∧ records.map (·.args) = tuples.map some ++ [none]
      | _ => d.executed? j = none := by
  cases hchosen : d.chosen? j with
  | none =>
    rw [askedBrain?, executed?, hchosen]
    rfl
  | some next =>
    obtain ⟨_, hprevious, hdeadline⟩ := chosen?_eq_some hchosen
    rw [askedBrain?, executed?, hchosen, Option.bind_some, Option.bind_some, prepare, run_bind]
    rcases hbrain : (startBrain j.request).run.run next with ⟨_ | brain, started⟩
    · rfl
    dsimp only
    rw [run_bind]
    rcases hdetector : (startDetector j.request).run.run started with ⟨_ | detector, ready⟩
    · rfl
    have hkept := ((startBrain_frames j.request).ok hbrain).trans
      ((startDetector_frames j.request).ok hdetector)
    obtain ⟨after, hbatch⟩ := run_askBatch brain j.request ready
    rw [previousBatch_of_previous (hkept.previous.trans hprevious), hkept.stageDeadline, hdeadline] at hbatch
    dsimp only
    rw [run_bind, hbatch]
    rcases (brain.ask (.handleGeneration ⟨j.request.batchSize, d.previousBatch j.request.target⟩)
      d.stageDeadline).2 with _ | reply
    · rfl
    cases reply with
    | assembled tuples => exact ⟨_, rfl, after.executeAll_args tuples j.launcher j.memory⟩
    | _ => rfl

/-- The records of a target are those of the last run on it whose executions came to their end, as they
    were then and without any verdict. There are some as soon as there was such a run, no matter whether
    its detector answered; all other failures come before that, and nothing is kept of them. The brain of
    the next run on the target is shown just these records. Nothing is assumed of the plugins, the
    contexts or the trees, and the targets may differ from run to run. -/
theorem previousBatch_performAll (catalog : Catalog) (ids : IdSupply) (tupleDeadline stageDeadline : Nat)
    (jobs : List Job) :
    let d := { start catalog ids tupleDeadline with stageDeadline := stageDeadline }
    (∀ e ∈ d.log jobs, e.Sound stageDeadline) ∧
      (∀ target, (d.performAll jobs).previousBatch target = lastExecuted target (d.log jobs)) ∧
      (∀ target, ((d.performAll jobs).previousBatch target).isSome = true ↔
        ∃ e ∈ d.log jobs, e.target = target ∧ e.executed.isSome = true) ∧
      ∀ front j back, jobs = front ++ j :: back →
        let now := d.performAll front
        match now.askedBrain? j with
        | none => now.executed? j = none
        | some brain =>
          match (brain.ask (.handleGeneration
            ⟨j.request.batchSize, lastExecuted j.request.target (d.log front)⟩) stageDeadline).2 with
          | .ok (.assembled tuples) =>
            ∃ records, now.executed? j = some records ∧ records.map (·.args) = tuples.map some ++ [none]
          | _ => now.executed? j = none := by
  intro d
  have hprevious (jobs : List Job) (target : String) :
      (d.performAll jobs).previousBatch target = lastExecuted target (d.log jobs) := by
    rw [previousBatch_performAll_eq]
    exact Option.or_none
  refine ⟨d.log_sound jobs, hprevious jobs, fun target => ?_, fun front j back _ => ?_⟩
  · rw [hprevious, isSome_lastExecuted_iff]
  · intro now
    have hasked := now.executed?_of_askedBrain? j
    rwa [hprevious, d.performAll_stageDeadline front] at hasked

end Dispatcher

namespace Sample

/-- Flags whatever it is given. -/
def flagging : Detector :=
  .ofFlags "flagging" "flags everything" (fun records => some (records.map fun _ => true))
    fun _ _ => some "found"

/-- Breaks down over every batch. -/
def failing : Detector := ⟨"failing", "breaks down", none, fun _ => none⟩

def judgedBy (judge : Detector) : Dispatcher :=
  { dispatcher with catalog := { dispatcher.catalog with detectors := [("detector", judge)] } }

def job : Job := ⟨tree, request, Bool, launcher, true⟩

end Sample

/-- What is remembered is not what the run came to, which has the verdicts, and something is remembered of
    a run that came to nothing. -/
theorem Dispatcher.previousBatch_without_verdicts :
    (∃ outcome, ((Sample.judgedBy Sample.flagging).perform Sample.job).2 = .ok outcome ∧
      ((Sample.judgedBy Sample.flagging).performAll [Sample.job]).previousBatch Sample.request.target ≠
        some outcome.records) ∧
      (∃ e, ((Sample.judgedBy Sample.failing).perform Sample.job).2 = .error e) ∧
      ((Sample.judgedBy Sample.failing).performAll [Sample.job]).previousBatch Sample.request.target ≠
        none := by
  refine ⟨⟨_, rfl, fun hsame => ?_⟩, ⟨_, rfl⟩, fun hnone => ?_⟩
  · have hflags := congrArg (Option.map (List.map FuzzRecord.isFlagged)) hsame
    exact absurd hflags (by decide +kernel)
  · exact absurd (congrArg Option.isSome hnone) (by decide +kernel)

end PageProbe
