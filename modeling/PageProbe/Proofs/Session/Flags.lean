import PageProbe.Proofs.Session.Verdicts

namespace PageProbe

open Json (Value)

namespace IdSupply

theorem tag_uuids (s : IdSupply) (lists : List (Option (List Value))) :
    (s.tag lists).2.map (·.uuid) = (List.range' s.issued lists.length).map s.text := by
  induction lists generalizing s with
  | nil => rfl
  | cons args rest ih =>
    rw [tag, List.map_cons, List.length_cons, List.range'_succ, List.map_cons]
    exact congrArg (s.text s.issued :: ·) (ih _)

/-- Ids are given out once when no two numbers have the same. -/
theorem tag_nodup {s : IdSupply} (hids : Function.Injective s.text) (lists : List (Option (List Value))) :
    ((s.tag lists).2.map (·.uuid)).Nodup := by
  rw [tag_uuids]
  exact List.Nodup.map hids List.nodup_range'

end IdSupply

namespace Difference

/-- A call without an error has returned its first argument. -/
def HandsBack (args : Option (List Value)) (report : Option ExecutionReport) : Prop :=
  ∃ first rest given, args = some (first :: rest) ∧ report = some given ∧ given.error = none ∧
    first.same given.returnedValue = true

/-- A call that passes for one that has returned its first argument: nothing was reported, and the argument is
    null, or an error was reported along with the argument. A report of an error without a value counts as
    one with null. -/
inductive PassesFor : Option (List Value) → Option ExecutionReport → Prop where
  | silent (rest : List Value) : PassesFor (some (.null :: rest)) none
  | failed {first : Value} {rest : List Value} {given : ExecutionReport} (herror : given.error ≠ none)
      (hsame : first.same given.returnedValue = true) : PassesFor (some (first :: rest)) (some given)

/-- What becomes of a record. -/
def judged (r : FuzzRecord) : FuzzRecord := { r with detection := some ⟨givesBack r, info (givesBack r)⟩ }

/-- Every record gets the flag of its own. -/
theorem attach_judged (records : List FuzzRecord) :
    Detector.attach (fun _ flag => some (info flag)) (records.map givesBack) records =
      some (records.map judged) := by
  induction records with
  | nil => rfl
  | cons r rest ih =>
    rw [List.map_cons, Detector.attach, ih]
    rfl

/-- The answer to records is these records with their flags. -/
theorem ask_judged (id : String) (records : List FuzzRecord) (deadline : Nat) :
    ((Worker.detector (DetectorWorker.start id detector)).ask (.detect records) deadline).2 =
      .ok (.detected (records.map judged)) := by
  have hflags : (fun records => some (records.map givesBack)) records = some (records.map givesBack) := rfl
  exact DetectorWorker.ask_ofFlags id _ _ hflags (attach_judged records) deadline

theorem same_null_iff (v : Value) : v.same .null = true ↔ v = .null := by
  cases v <;> simp [Value.same]

theorem not_handsBack_of_passesFor {args : Option (List Value)} {report : Option ExecutionReport}
    (h : PassesFor args report) : ¬HandsBack args report := by
  rintro ⟨_, _, given, -, hreport, hnone, -⟩
  cases h with
  | silent rest => cases hreport
  | failed herror _ =>
    obtain rfl := Option.some.inj hreport
    exact herror hnone

/-- The flag of a record, from what was reported about its call. -/
theorem givesBack_iff (t : Tuple) (e : Launched) (deadline : Nat) :
    givesBack (Dispatcher.recordFor deadline t e) = true ↔
      HandsBack t.args (e.reportOf t.uuid deadline) ∨ PassesFor t.args (e.reportOf t.uuid deadline) := by
  obtain ⟨uuid, args⟩ := t
  rcases args with _ | _ | ⟨first, rest⟩
  · exact ⟨nofun, by rintro (⟨_, _, _, h, -⟩ | h) <;> cases h⟩
  · exact ⟨nofun, by rintro (⟨_, _, _, h, -⟩ | h) <;> cases h⟩
  · change first.same (e.responseTo uuid deadline).value = true ↔ _
    rw [Launched.responseTo]
    dsimp only
    generalize e.reportOf uuid deadline = report
    cases report with
    | none =>
      change first.same .null = true ↔ _
      rw [same_null_iff]
      constructor
      · rintro rfl
        exact .inr (.silent rest)
      · rintro (⟨_, _, _, -, h, -⟩ | h)
        · cases h
        · cases h
          rfl
    | some given =>
      change first.same given.returnedValue = true ↔ _
      constructor
      · intro hsame
        by_cases herror : given.error = none
        · exact .inl ⟨first, rest, given, rfl, rfl, herror, hsame⟩
        · exact .inr (.failed herror hsame)
      · rintro (⟨_, _, _, hargs, hreport, -, hsame⟩ | h)
        · cases hargs
          cases hreport
          exact hsame
        · cases h with
          | failed _ hsame => exact hsame

end Difference

namespace Dispatcher

/-- The detector of a run is the one that the catalog has for it. -/
theorem prepare_detector {r : FuzzRequest} {d prepared : Dispatcher} {worker : Worker}
    {tuples : List (List Value)} {detector : Detector}
    (hdetector : d.catalog.detector r.detector = .ok detector)
    (h : (prepare r).run.run d = (.ok (worker, tuples), prepared)) :
    worker = .detector (DetectorWorker.start r.detector detector) := by
  obtain ⟨⟨found, hfound, rfl⟩, _⟩ := prepare_iff.mp ⟨prepared, h⟩
  obtain rfl := Except.ok.inj (hdetector.symm.trans hfound)
  rfl

/-- Records with different ids come out of the detection of differences with the flags of their own. -/
theorem endOf_judged {records : List FuzzRecord} (hids : (records.map (·.uuid)).Nodup) (d : Dispatcher)
    (r : FuzzRequest) :
    (d.endOf r (.detector (DetectorWorker.start r.detector Difference.detector)) records).2 =
      .ok ⟨r.target, records.map Difference.judged⟩ := by
  have hmerge : merge records (records.map Difference.judged) = records.map Difference.judged := by
    refine merge_of_unjudged hids ?_
    rw [List.map_map]
    rfl
  have hrun := run_judge (Difference.ask_judged r.detector records (d.keep r.target records).stageDeadline)
  rw [hmerge] at hrun
  rw [endOf, hrun]

/-- A run whose records the detector of differences judges ends with a record for each tuple of its batch, and
    with a flag for each record. Whatever the arguments and the contexts are, the record of a call that has
    reported no error is flagged just when there is a first argument and it was returned. Of the other
    records those are flagged, and no others, that pass for such a call: nothing was reported in time about
    a call with null as its first argument, or its first argument was reported along with an error. A call
    without arguments is never flagged, and neither is the baseline. -/
theorem dispatch_flagged {d prepared : Dispatcher} {tree : FunctionTree} {r : FuzzRequest} {i : Injector}
    {worker : Worker} {tuples : List (List Value)}
    (hselect : d.release.injector.select tree r.target r.dependencyArgs = .ok i)
    (hprepare : (prepare r).run.run { d.release.showProgress .start with injector := i } =
      (.ok (worker, tuples), prepared))
    (hdetector : d.catalog.detector r.detector = .ok Difference.detector)
    (hids : Function.Injective d.ids.text) (l : Launcher σ) (memory : σ) :
    ∃ (batch : List Tuple) (es : List Launched) (outcome : FuzzOutcome),
      batch.map (·.args) = tuples.map some ++ [none] ∧ es.length = batch.length ∧
      (∀ log, (d.dispatch tree l.traced (memory, log) r).2.1 =
        ((d.dispatch tree l memory r).2.1, log ++ es.flatMap ContextEvent.ofExecution)) ∧
      (d.dispatch tree l memory r).2.2 = .ok outcome ∧ outcome.records.length = batch.length ∧
      ∀ (k : Nat) (t : Tuple) (e : Launched), batch[k]? = some t → es[k]? = some e →
        let report := e.reportOf t.uuid d.tupleDeadline
        ∃ flag, outcome.records[k]? = some ⟨t.uuid, t.args, e.responseTo t.uuid d.tupleDeadline,
            some ⟨flag, Difference.info flag⟩⟩ ∧
          (¬Difference.PassesFor t.args report → (flag = true ↔ Difference.HandsBack t.args report)) ∧
          (Difference.PassesFor t.args report → flag = true ∧ ¬Difference.HandsBack t.args report) ∧
          (t.args = none ∨ t.args = some [] → flag = false) := by
  obtain ⟨executed, batch, es, records, hexecuted, _, hend, htrace⟩ :=
    dispatch_executed hselect hprepare l memory
  have hchosen : ({ d.release.showProgress .start with injector := i } : Dispatcher).catalog.detector
      r.detector = .ok Difference.detector := hdetector
  have hworker := prepare_detector hchosen hprepare
  have hdistinct : (records.map (·.uuid)).Nodup := by
    rw [hexecuted.uuids, hexecuted.tagged]
    exact IdSupply.tag_nodup hids _
  rw [hworker, endOf_judged hdistinct, hexecuted.recorded] at hend
  refine ⟨batch, es, _, hexecuted.batch_args, hexecuted.launched, fun log => ?_, hend, ?_,
    fun k t e ht he => ?_⟩
  · rw [htrace]
  · simp [hexecuted.launched]
  · have hflag := Difference.givesBack_iff t e d.tupleDeadline
    refine ⟨Difference.givesBack (recordFor d.tupleDeadline t e), ?_, fun hpass => ?_, fun hpass => ?_, ?_⟩
    · rw [List.getElem?_map, List.getElem?_zipWith, ht, he]
      rfl
    · rw [hflag, or_iff_left hpass]
    · exact ⟨hflag.mpr (.inr hpass), Difference.not_handsBack_of_passesFor hpass⟩
    · rintro (hargs | hargs)
      · rw [recordFor, Difference.givesBack, hargs]
      · rw [recordFor, Difference.givesBack, hargs]

end Dispatcher

namespace Sample

/-- Calls the function with null, and judges what comes back of it. -/
def comparing : Dispatcher :=
  Dispatcher.start ⟨0, [], [(Difference.moduleId, Difference.detector)], [("brain", brain)]⟩
    ⟨fun n => String.ofList (List.replicate n 'u'), 0⟩ 100

def compared : FuzzRequest := { request with detector := Difference.moduleId }

theorem comparing_ids : Function.Injective comparing.ids.text := by
  intro m n hsame
  have hlength := congrArg String.length hsame
  simpa [comparing, Dispatcher.start] using hlength

end Sample

namespace Dispatcher

/-- A call of which nothing was heard is flagged as one that has given its input back. -/
theorem dispatch_flagged_silent :
    ∃ outcome first, (Sample.comparing.dispatch Sample.tree Sample.launcher true Sample.compared).2.2 =
        .ok outcome ∧ outcome.records[0]? = some first ∧ first.args = some [.null] ∧
      first.response.error = some ExecutionReport.timeoutError ∧
      first.detection = some ⟨true, Difference.info true⟩ :=
  ⟨_, _, rfl, rfl, rfl, rfl, rfl⟩

theorem dispatch_flagged_baseline :
    ∃ outcome last, (Sample.comparing.dispatch Sample.tree Sample.launcher true Sample.compared).2.2 =
        .ok outcome ∧ outcome.records.length = 2 ∧ outcome.records[1]? = some last ∧ last.args = none ∧
      last.detection = some ⟨false, Difference.info false⟩ := by
  have hselect : Sample.comparing.release.injector.select Sample.tree Sample.compared.target
      Sample.compared.dependencyArgs = .ok Sample.selected := rfl
  have hprepare : (prepare Sample.compared).run.run
      { Sample.comparing.release.showProgress .start with injector := Sample.selected } =
        (.ok (.detector (DetectorWorker.start Difference.moduleId Difference.detector), [[.null]]), _) := rfl
  obtain ⟨batch, es, outcome, hbatch, hlaunched, -, houtcome, hlength, hrecords⟩ :=
    dispatch_flagged hselect hprepare rfl Sample.comparing_ids Sample.launcher true
  have hcount : batch.length = 2 := by
    rw [← List.length_map, hbatch]
    rfl
  have hlast : (batch.map (·.args))[1]? = some none := by
    rw [hbatch]
    rfl
  rw [List.getElem?_map] at hlast
  obtain ⟨t, ht, hargs⟩ := Option.map_eq_some_iff.mp hlast
  obtain ⟨e, he⟩ : ∃ e, es[1]? = some e := ⟨_, List.getElem?_eq_getElem (by omega)⟩
  obtain ⟨flag, hrecord, -, -, hcleared⟩ := hrecords 1 t e ht he
  rw [hcleared (.inl hargs)] at hrecord
  exact ⟨outcome, _, houtcome, by omega, hrecord, hargs, rfl⟩

end Dispatcher
end PageProbe
