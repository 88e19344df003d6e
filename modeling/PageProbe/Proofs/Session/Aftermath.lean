import PageProbe.Proofs.Session.Dispatch

namespace PageProbe

/-- Whatever is fetched meanwhile, the executions of a batch of tuples with different ids leave the
    injector empty and not armed. -/
theorem Injector.run_loaded_executions {i : Injector} {batch : List Tuple} {events : List InjectorEvent}
    (hinactive : i.active = false) (hids : (batch.map (·.uuid)).Nodup)
    (hevents : events.filter InjectorEvent.isControl = .load batch :: InjectorEvent.ofExecutions batch) :
    (i.run events).queue = [] ∧ (i.run events).active = false := by
  have hstart : Aligned batch 0 ((events ++ []).filter InjectorEvent.isControl) i := by
    rw [List.append_nil, hevents]
    exact .unloaded hinactive
  exact (hstart.run hids).of_nil

namespace Session

/-- Showing progress changes the progress, and nothing else in the model. -/
theorem showAll_cons_model (s : Session) (p : Progress) (ps : List Progress) :
    ∃ last ∈ p :: ps, (s.showAll (p :: ps)).model = { s.model with progress := last } := by
  induction ps generalizing s p with
  | nil => exact ⟨p, List.mem_cons_self, rfl⟩
  | cons next ps ih =>
    obtain ⟨last, hlast, hmodel⟩ := ih (s.showProgress p) next
    exact ⟨last, List.mem_cons_of_mem p hlast, hmodel⟩

theorem showAll_observers (s : Session) (ps : List Progress) : (s.showAll ps).observers = s.observers := by
  induction ps generalizing s with
  | nil => rfl
  | cons p ps ih => exact ih (s.showProgress p)

end Session

namespace Dispatcher

/-- What a failed run leaves of a dispatcher: it is idle and holds on to nothing, and of the model of its
    session only the progress has changed, which has not come to an end. -/
structure LetGo (before after : Dispatcher) : Prop where
  state : after.state = .idle
  injector : after.injector = ⟨false, [], none, []⟩
  brain : after.brain = none
  detector : after.detector = none
  model : after.session.model =
    { before.session.model with progress := after.session.model.progress }
  observers : after.session.observers = before.session.observers
  unfinished : after.session.model.progress.value < 100

/-- A dispatcher with the settings of one that has made a run, in which none has been made, but for what
    that one keeps: the ids that it has given out, its records and its session. -/
def restarted (before after : Dispatcher) : Dispatcher :=
  { start before.catalog after.ids before.tupleDeadline with
    stageDeadline := before.stageDeadline
    session := { after.session with model := { after.session.model with progress := .start } }
    previous := after.previous }

theorem release_letGo {d failed : Dispatcher} (executions : Nat)
    (hsession : failed.session = d.session.showAll (Progress.beforeVerdicts executions)) :
    d.LetGo failed.release := by
  obtain ⟨last, hlast, hmodel⟩ := d.session.showAll_cons_model .start
    ((List.range' 1 executions).map (Progress.ofSteps · (executions + 1)))
  have hleft : failed.release.session.model = { d.session.model with progress := last } := by
    rw [← hmodel, ← Progress.beforeVerdicts, ← hsession]
    rfl
  refine ⟨rfl, rfl, rfl, rfl, ?_, ?_, ?_⟩
  · rw [hleft]
  · exact (congrArg Session.observers hsession).trans (d.session.showAll_observers _)
  · rw [hleft]
    exact Progress.beforeVerdicts_lt (List.mem_map_of_mem hlast)

/-- After the executions no more than the verdicts are left to come, or a failure. -/
theorem endOf_left (d : Dispatcher) (r : FuzzRequest) (detector : Worker) (records : List FuzzRecord) :
    let after := (d.endOf r detector records).1
    after.settings = d.settings ∧
      match (d.endOf r detector records).2 with
      | .error _ => ∃ failed : Dispatcher, failed.session = d.session ∧ after = failed.release
      | .ok outcome =>
        after.state = .idle ∧ after.injector = d.injector ∧
          outcome.records.map FuzzRecord.unjudged = records.map FuzzRecord.unjudged := by
  have hkept := judge_frames detector records (d.keep r.target records)
  rw [endOf]
  rcases hjudge : (judge detector records).run.run (d.keep r.target records) with ⟨e | judged, judgedAt⟩
  · rw [hjudge] at hkept
    exact ⟨hkept.settings, judgedAt, hkept.session, rfl⟩
  · rw [hjudge] at hkept
    exact ⟨hkept.settings, rfl, hkept.injector, judge_unjudged hjudge⟩

/-- What a run leaves behind, and what it comes to: it has failed before anything was executed, or it has
    been executed and ends as its detection does. -/
theorem dispatch_left (d : Dispatcher) (tree : FunctionTree) (r : FuzzRequest) (l : Launcher σ)
    (memory : σ) :
    let run := d.dispatch tree l memory r
    (∃ e, ∃ failed : Dispatcher, run.2.2 = .error e ∧ run.1 = failed.release ∧ failed.settings = d.settings ∧
        failed.session = d.session.showProgress .start) ∨
      ∃ i detector tuples prepared executed batch es records,
        (prepare r).run.run { d.release.showProgress .start with injector := i } =
          (.ok (detector, tuples), prepared) ∧
        i.active = false ∧ d.Executed i tuples executed batch es records ∧
        run.1 = (executed.endOf r detector records).1 ∧ run.2.2 = (executed.endOf r detector records).2 := by
  intro run
  rcases d.dispatch_cases tree r l memory with ⟨e, hrun⟩ | ⟨i, hselect, hchosen⟩
  · exact .inl ⟨.target e, d.release.showProgress .start, by simp only [run, hrun],
      by simp only [run, hrun]; rfl, rfl, rfl⟩
  · rcases hchosen with ⟨e, prepared, hprepare, hrun⟩ | ⟨detector, tuples, prepared, hprepare, hrun⟩
    · have hkept := prepare_frames r { d.release.showProgress .start with injector := i }
      rw [hprepare] at hkept
      exact .inl ⟨e, prepared, by simp only [run, hrun], by simp only [run, hrun], hkept.settings,
        hkept.session⟩
    · obtain ⟨es, hexecuted, _⟩ := executeAll_executed hprepare l memory
      exact .inr ⟨i, detector, tuples, prepared, _, _, es, _, hprepare, Injector.select_active hselect,
        hexecuted, congrArg Prod.fst hrun, congrArg (·.2.2) hrun⟩

/-- The settings are the same after every run. -/
theorem dispatch_settings (d : Dispatcher) (tree : FunctionTree) (r : FuzzRequest) (l : Launcher σ)
    (memory : σ) : (d.dispatch tree l memory r).1.settings = d.settings := by
  rcases d.dispatch_left tree r l memory with
    ⟨_, failed, _, hleft, hsettings, _⟩ | ⟨_, detector, _, _, executed, _, _, records, _, _, hexecuted, hleft, _⟩
  · rw [hleft]
    exact hsettings
  · rw [hleft, (executed.endOf_left r detector records).1]
    exact hexecuted.settings

/-- A run that fails leaves a dispatcher that has let go of everything. -/
theorem dispatch_error {d : Dispatcher} {tree : FunctionTree} {r : FuzzRequest} {l : Launcher σ}
    {memory : σ} {e : DispatchError} (h : (d.dispatch tree l memory r).2.2 = .error e) :
    d.LetGo (d.dispatch tree l memory r).1 := by
  rcases d.dispatch_left tree r l memory with
    ⟨_, failed, _, hleft, _, hsession⟩ | ⟨_, detector, _, _, executed, _, _, records, _, _, hexecuted, hleft, hend⟩
  · rw [hleft]
    exact release_letGo 0 hsession
  · have hfailed := (executed.endOf_left r detector records).2
    rw [← hend, h] at hfailed
    obtain ⟨failed, hsame, hafter⟩ := hfailed
    rw [hleft, hafter]
    exact release_letGo _ (hsame.trans hexecuted.shown)

/-- A run that succeeds leaves an idle dispatcher. If its tuples had different ids, none of them waits,
    and the injector is not armed. -/
theorem dispatch_ok {d : Dispatcher} {tree : FunctionTree} {r : FuzzRequest} {l : Launcher σ}
    {memory : σ} {outcome : FuzzOutcome} (h : (d.dispatch tree l memory r).2.2 = .ok outcome) :
    (d.dispatch tree l memory r).1.state = .idle ∧
      ((outcome.records.map (·.uuid)).Nodup →
        (d.dispatch tree l memory r).1.injector.active = false ∧
          (d.dispatch tree l memory r).1.injector.queue = []) := by
  rcases d.dispatch_left tree r l memory with
    ⟨_, _, hfailed, _⟩ | ⟨_, detector, _, _, executed, batch, _, records, _, hinactive, hexecuted, hleft, hend⟩
  · rw [hfailed] at h
    cases h
  · have hended := (executed.endOf_left r detector records).2
    rw [← hend, h] at hended
    obtain ⟨hidle, hinjector, hunjudged⟩ := hended
    rw [hleft]
    refine ⟨hidle, fun hids => ?_⟩
    obtain ⟨events, hevents, hrun⟩ := hexecuted.scheduled
    have hsame : outcome.records.map (·.uuid) = records.map (·.uuid) := by
      simpa [Function.comp_def, FuzzRecord.unjudged] using congrArg (List.map FuzzRecord.uuid) hunjudged
    rw [hsame, hexecuted.uuids] at hids
    obtain ⟨hqueue, hunarmed⟩ := Injector.run_loaded_executions hinactive hids hevents
    rw [hinjector, hrun]
    exact ⟨hunarmed, hqueue⟩

/-- A run begins by dropping all but the settings, the ids, the records of earlier runs and the session
    without its progress. -/
theorem dispatch_restarted {d after : Dispatcher} (h : after.settings = d.settings) (tree : FunctionTree)
    (r : FuzzRequest) (l : Launcher σ) (memory : σ) :
    (d.restarted after).dispatch tree l memory r = after.dispatch tree l memory r := by
  obtain ⟨hcatalog, hdeadlines⟩ := Prod.mk.inj h
  obtain ⟨htuple, hstage⟩ := Prod.mk.inj hdeadlines
  have hstart : (d.restarted after).release.showProgress .start = after.release.showProgress .start := by
    simp only [restarted, ← hcatalog, ← htuple, ← hstage]
    rfl
  simp only [dispatch, hstart]

/-- Whatever a run comes to, and whatever there was before, the dispatcher is idle afterwards. When the
    run has failed, no matter where, all that is left of it is its progress, which has not come to an
    end. When it has succeeded, nothing waits for its injection, as long as no two of its tuples had the
    same id. Every later run is the one that a new dispatcher with the same settings would make if it
    had the ids, the records and the session of this one. -/
theorem dispatch_aftermath (d : Dispatcher) (tree : FunctionTree) (r : FuzzRequest) (l : Launcher σ)
    (memory : σ) :
    let after := (d.dispatch tree l memory r).1
    after.state = .idle ∧
      (match (d.dispatch tree l memory r).2.2 with
        | .error _ => d.LetGo after
        | .ok outcome => (outcome.records.map (·.uuid)).Nodup →
            after.injector.active = false ∧ after.injector.queue = []) ∧
      ∀ {σ' : Type} (tree' : FunctionTree) (r' : FuzzRequest) (l' : Launcher σ') (memory' : σ'),
        after.dispatch tree' l' memory' r' = (d.restarted after).dispatch tree' l' memory' r' := by
  intro after
  have hlater {σ' : Type} (tree' : FunctionTree) (r' : FuzzRequest) (l' : Launcher σ') (memory' : σ') :
      after.dispatch tree' l' memory' r' = (d.restarted after).dispatch tree' l' memory' r' :=
    (dispatch_restarted (d.dispatch_settings tree r l memory) tree' r' l' memory').symm
  cases hresult : (d.dispatch tree l memory r).2.2 with
  | error e =>
    have hleft := dispatch_error hresult
    exact ⟨hleft.state, hleft, hlater⟩
  | ok outcome =>
    obtain ⟨hidle, hempty⟩ := dispatch_ok hresult
    exact ⟨hidle, hempty, hlater⟩

end Dispatcher

/-- A run whose contexts do not fetch anything succeeds all the same, and one with an unknown brain
    fails. -/
theorem Dispatcher.dispatch_aftermath_silent :
    (∃ outcome, (Sample.dispatcher.dispatch Sample.tree Sample.launcher true Sample.request).2.2 =
        .ok outcome ∧ (outcome.records.map (·.uuid)).Nodup ∧ outcome.records ≠ [] ∧
      (Sample.dispatcher.dispatch Sample.tree Sample.launcher true Sample.request).1.injector.queue = []) ∧
      ∃ e, (Sample.dispatcher.dispatch Sample.tree Sample.launcher true
        { Sample.request with brain := "none" }).2.2 = .error e ∧
        Sample.dispatcher.LetGo (Sample.dispatcher.dispatch Sample.tree Sample.launcher true
          { Sample.request with brain := "none" }).1 := by
  obtain ⟨_, hsucceeded, _⟩ := Sample.dispatcher.dispatch_aftermath Sample.tree Sample.request
    Sample.launcher true
  obtain ⟨_, hfailed, _⟩ := Sample.dispatcher.dispatch_aftermath Sample.tree
    { Sample.request with brain := "none" } Sample.launcher true
  refine ⟨⟨_, rfl, by decide +kernel, by decide +kernel, (hsucceeded (by decide +kernel)).2⟩, _, rfl, hfailed⟩

end PageProbe
