import PageProbe.Session.Dispatcher
import PageProbe.Proofs.Injection.Schedule

namespace PageProbe

open Text (Bytes)

namespace Fetching

/-- The same behaviour, of which something else is made in the end. -/
def map (f : α → β) : Fetching α → Fetching β
  | done result => .done (f result)
  | fetch piece next => .fetch piece fun got => (next got).map f

@[simp] theorem run_map (f : α → β) (x : Fetching α) (i : Injector) :
    (x.map f).run i = ((x.run i).1, f (x.run i).2) := by
  induction x generalizing i with
  | done result => rfl
  | fetch piece next ih =>
    rw [map, run, run]
    exact ih _ _

/-- To the injector a context is nothing but the pieces that it fetches. -/
theorem run_injector (x : Fetching α) (i : Injector) :
    ∃ pieces : List Chunk, (x.run i).1 = i.run (pieces.map .fetch) := by
  induction x generalizing i with
  | done result => exact ⟨[], rfl⟩
  | fetch piece next ih =>
    obtain ⟨pieces, hpieces⟩ := ih (Injector.pieceOf piece (i.intercept piece).2) (i.intercept piece).1
    exact ⟨piece :: pieces, hpieces⟩

end Fetching

/-- What happens to contexts, as their launcher sees it. -/
inductive ContextEvent where
  | failed (reason : String)
  | launched (reports : List TimedReport)
  | tornDown

namespace ContextEvent

def ofLaunch : Launched → ContextEvent
  | .failed reason => failed reason
  | .reporting reports => launched reports

/-- What happens in one execution. -/
def ofExecution : Launched → List ContextEvent
  | .failed reason => [failed reason]
  | .reporting reports => [launched reports, tornDown]

def isLaunched : ContextEvent → Bool
  | launched _ => true
  | _ => false

def isTornDown : ContextEvent → Bool
  | tornDown => true
  | _ => false

/-- At no time are there two contexts that have been launched and not been torn down. -/
def OneAtATime (log : List ContextEvent) : Prop :=
  ∀ front back, log = front ++ back → front.countP isLaunched ≤ front.countP isTornDown + 1

/-- What happens to the contexts of a run tells what each launch has come to. -/
theorem flatMap_ofExecution_inj {es es' : List Launched}
    (h : es.flatMap ofExecution = es'.flatMap ofExecution) : es = es' := by
  induction es generalizing es' with
  | nil =>
    cases es' with
    | nil => rfl
    | cons e' es' => cases e' <;> cases h
  | cons e es ih =>
    cases es' with
    | nil => cases e <;> cases h
    | cons e' es' =>
      cases e with
      | failed reason =>
        cases e' with
        | failed reason' =>
          obtain ⟨hreason, hrest⟩ := List.cons.inj h
          cases hreason
          rw [ih hrest]
        | reporting reports' => cases h
      | reporting reports =>
        cases e' with
        | failed reason' => cases h
        | reporting reports' =>
          obtain ⟨hreports, htail⟩ := List.cons.inj h
          obtain ⟨_, hrest⟩ := List.cons.inj htail
          cases hreports
          rw [ih hrest]

theorem flatMap_ofExecution_oneAtATime (es : List Launched) : OneAtATime (es.flatMap ofExecution) := by
  intro front back h
  induction es generalizing front with
  | nil =>
    obtain ⟨rfl, _⟩ := List.append_eq_nil_iff.mp h.symm
    simp
  | cons e es ih =>
    cases e with
    | failed reason =>
      simp only [List.flatMap_cons, ofExecution, List.cons_append, List.nil_append] at h
      cases front with
      | nil => simp
      | cons first front =>
        obtain ⟨rfl, hrest⟩ := List.cons.inj h
        have hle := ih front hrest
        simpa [isLaunched, isTornDown] using hle
    | reporting reports =>
      simp only [List.flatMap_cons, ofExecution, List.cons_append, List.nil_append] at h
      cases front with
      | nil => simp
      | cons first front =>
        obtain ⟨rfl, hrest⟩ := List.cons.inj h
        cases front with
        | nil => simp [isLaunched, isTornDown]
        | cons second front =>
          obtain ⟨rfl, htail⟩ := List.cons.inj hrest
          have hle := ih front htail
          simp only [List.countP_cons, isLaunched, isTornDown, Bool.false_eq_true, ↓reduceIte]
          omega

end ContextEvent

open ContextEvent

/-- The same launcher, which also writes down what happens to its contexts. -/
def Launcher.traced (l : Launcher σ) : Launcher (σ × List ContextEvent) where
  launch := fun (memory, log) =>
    (l.launch memory).map fun (memory, e) => ((memory, log ++ [ofLaunch e]), e)
  teardown := fun (memory, log) => (l.teardown memory).map fun memory => (memory, log ++ [tornDown])

namespace Launched

/-- The response to the call of a tuple. -/
def responseTo (e : Launched) (uuid : String) (deadline : Nat) : ExecutionResponse :=
  ((e.reportOf uuid deadline).getD (ExecutionReport.timedOut uuid)).response

/-- A report that tells of a tuple, and comes in time. -/
def Answers (uuid : String) (deadline : Nat) (r : TimedReport) : Prop :=
  r.report.uniqueId = uuid ∧ r.time ≤ deadline

/-- What may count as the response to the call of a tuple: that of the first report that answers, and a
    timeout if there is none or the context does not even start. -/
inductive Responds (uuid : String) (deadline : Nat) : Launched → ExecutionResponse → Prop where
  | failed (reason : String) :
      Responds uuid deadline (.failed reason) (ExecutionReport.timedOut uuid).response
  | answered {front back : List TimedReport} {r : TimedReport}
      (hfront : ∀ e ∈ front, ¬ Answers uuid deadline e) (hanswers : Answers uuid deadline r) :
      Responds uuid deadline (.reporting (front ++ r :: back)) r.report.response
  | silent {reports : List TimedReport} (hnone : ∀ e ∈ reports, ¬ Answers uuid deadline e) :
      Responds uuid deadline (.reporting reports) (ExecutionReport.timedOut uuid).response

/-- The same launch without the reports that tell of other tuples. -/
def only (uuid : String) : Launched → Launched
  | .failed reason => .failed reason
  | .reporting reports => .reporting (reports.filter fun r => r.report.uniqueId == uuid)

theorem responseTo_responds (e : Launched) (uuid : String) (deadline : Nat) :
    Responds uuid deadline e (e.responseTo uuid deadline) := by
  cases e with
  | failed reason => exact .failed reason
  | reporting reports =>
    rw [responseTo, reportOf]
    cases hfind : reports.find? fun r => r.report.uniqueId == uuid && decide (r.time ≤ deadline) with
    | none =>
      refine .silent fun r hr => ?_
      simpa [Answers] using List.find?_eq_none.mp hfind r hr
    | some r =>
      obtain ⟨hthere, front, back, rfl, hfront⟩ := List.find?_eq_some_iff_append.mp hfind
      refine .answered (fun e he hanswers => ?_) ?_
      · have hother := hfront e he
        simp [hanswers.1, hanswers.2] at hother
      · simpa [Answers] using hthere

/-- Nothing else counts as the response. -/
theorem Responds.eq_responseTo {uuid : String} {deadline : Nat} {e : Launched} {response : ExecutionResponse}
    (h : Responds uuid deadline e response) : response = e.responseTo uuid deadline := by
  cases h with
  | failed reason => rfl
  | @answered front back r hfront hanswers =>
    have hfind : (front ++ r :: back).find? (fun r => r.report.uniqueId == uuid && decide (r.time ≤ deadline)) =
        some r :=
      List.find?_eq_some_iff_append.mpr ⟨by simpa [Answers] using hanswers, front, back, rfl,
        fun e he => by simpa [Answers, Decidable.imp_iff_not_or] using hfront e he⟩
    rw [responseTo, reportOf, hfind]
    rfl
  | @silent reports hnone =>
    have hfind : reports.find? (fun r => r.report.uniqueId == uuid && decide (r.time ≤ deadline)) = none :=
      List.find?_eq_none.mpr fun e he => by simpa [Answers] using hnone e he
    rw [responseTo, reportOf, hfind]
    rfl

/-- Reports that tell of other tuples change nothing. -/
theorem responseTo_only (e : Launched) (uuid : String) (deadline : Nat) :
    (e.only uuid).responseTo uuid deadline = e.responseTo uuid deadline := by
  cases e with
  | failed reason => rfl
  | reporting reports =>
    have hpred : (fun r : TimedReport => decide ((r.report.uniqueId == uuid) = true ∧
        (r.report.uniqueId == uuid && decide (r.time ≤ deadline)) = true)) =
        fun r => r.report.uniqueId == uuid && decide (r.time ≤ deadline) := by
      funext r
      cases r.report.uniqueId == uuid <;> simp
    rw [only, responseTo, responseTo, reportOf, reportOf, List.find?_filter, hpred]

end Launched

namespace Session

/-- What all observers are told about some progress. -/
def progressNotices (s : Session) (p : Progress) : List Notice :=
  s.observers.map fun o => ⟨o, p.update, { s.model with progress := p }⟩

/-- Shows one value of the progress after another. -/
def showAll (s : Session) (ps : List Progress) : Session := ps.foldl showProgress s

theorem announce_notices (s : Session) (update : ModelUpdate) :
    (s.announce update).notices.toList =
      s.notices.toList ++ s.observers.map fun o => ⟨o, update, s.model⟩ := by
  have hpush (told : Array Notice) :
      (s.observers.foldl (fun told o => told.push ⟨o, update, s.model⟩) told).toList =
        told.toList ++ s.observers.map fun o => ⟨o, update, s.model⟩ := by
    induction s.observers generalizing told with
    | nil => simp
    | cons o rest ih =>
      rw [List.foldl_cons, ih, Array.toList_push, List.append_assoc, List.map_cons]
      rfl
  exact hpush s.notices

theorem showProgress_notices (s : Session) (p : Progress) :
    (s.showProgress p).notices.toList = s.notices.toList ++ s.progressNotices p :=
  announce_notices _ p.update

/-- Observers are told every value in turn, and nothing else. -/
theorem showAll_notices (s : Session) (ps : List Progress) :
    (s.showAll ps).notices.toList = s.notices.toList ++ ps.flatMap s.progressNotices := by
  induction ps generalizing s with
  | nil => simp [showAll]
  | cons p ps ih =>
    have hsame : (s.showProgress p).progressNotices = s.progressNotices := rfl
    rw [showAll, List.foldl_cons, ← showAll, ih, showProgress_notices, hsame, List.flatMap_cons,
      List.append_assoc]

/-- What is told at the end does not depend on the progress before. -/
theorem showAll_progressNotices (s : Session) (ps : List Progress) (records : List FuzzRecord)
    (p : Progress) :
    ((s.showAll ps).storeRecords records).progressNotices p =
      (s.storeRecords records).progressNotices p := by
  induction ps generalizing s with
  | nil => rfl
  | cons first ps ih => exact ih (s.showProgress first)

end Session

namespace Dispatcher

/-- Contexts do nothing that the dispatcher does itself. -/
theorem filter_fetches (pieces : List Chunk) :
    (pieces.map InjectorEvent.fetch).filter InjectorEvent.isControl = [] := by
  simp [InjectorEvent.isControl, InjectorEvent.isFetch]

/-- What is written down about the execution of a tuple. -/
def recordFor (deadline : Nat) (t : Tuple) (e : Launched) : FuzzRecord :=
  ⟨t.uuid, t.args, e.responseTo t.uuid deadline, none⟩

/-- A record is about the tuple of its execution. -/
theorem zipWith_recordFor (deadline : Nat) {batch : List Tuple} {es : List Launched}
    (hlength : es.length = batch.length) :
    (List.zipWith (recordFor deadline) batch es).map (·.uuid) = batch.map (·.uuid) ∧
      (List.zipWith (recordFor deadline) batch es).map (·.args) = batch.map (·.args) := by
  constructor
  · exact List.ext_getElem (by simp [hlength]) fun k _ _ => by simp [recordFor]
  · exact List.ext_getElem (by simp [hlength]) fun k _ _ => by simp [recordFor]

/-- What the launch for the next tuple comes to. -/
def launchOf (d : Dispatcher) (l : Launcher σ) (memory : σ) : Launched :=
  ((l.launch memory).run d.injector.activate).2.2

/-- To the injector an execution is what the dispatcher does for it, with fetches in between. -/
theorem execute_injector (d : Dispatcher) (l : Launcher σ) (memory : σ) (t : Tuple) :
    ∃ events : List InjectorEvent,
      events.filter InjectorEvent.isControl = InjectorEvent.ofExecution t ∧
        (d.execute l memory t).1.injector = d.injector.run events := by
  obtain ⟨served, hserved⟩ := (l.launch memory).run_injector d.injector.activate
  have hlaunch : ((l.launch memory).run d.injector.activate).1 =
      d.injector.run (.activate :: served.map .fetch) := hserved
  cases he : ((l.launch memory).run d.injector.activate).2.2 with
  | failed reason =>
    refine ⟨.activate :: (served.map .fetch ++ [.deactivate, .settle t.uuid]), ?_, ?_⟩
    · rw [List.filter_cons_of_pos rfl, List.filter_append, filter_fetches]
      rfl
    · rw [← List.cons_append, Injector.run_append, ← hlaunch]
      simp only [execute, he]
      rfl
  | reporting reports =>
    obtain ⟨late, hlate⟩ := (l.teardown ((l.launch memory).run d.injector.activate).2.1).run_injector
      ((l.launch memory).run d.injector.activate).1
    refine ⟨.activate :: (served.map .fetch ++ (late.map .fetch ++ [.deactivate, .settle t.uuid])),
      ?_, ?_⟩
    · rw [List.filter_cons_of_pos rfl, List.filter_append, List.filter_append, filter_fetches,
        filter_fetches]
      rfl
    · rw [← List.cons_append, Injector.run_append, Injector.run_append, ← hlaunch, ← hlate]
      simp only [execute, he]
      rfl

/-- A launcher that writes down what happens does the same. -/
theorem execute_traced (d : Dispatcher) (l : Launcher σ) (memory : σ) (log : List ContextEvent)
    (t : Tuple) :
    d.execute l.traced (memory, log) t =
      ((d.execute l memory t).1,
        ((d.execute l memory t).2.1, log ++ ofExecution (d.launchOf l memory)),
        (d.execute l memory t).2.2) := by
  cases he : ((l.launch memory).run d.injector.activate).2.2 with
  | failed reason => simp [execute, launchOf, Launcher.traced, he, ofLaunch, ofExecution]
  | reporting reports => simp [execute, launchOf, Launcher.traced, he, ofLaunch, ofExecution]

/-- A batch is executed in its order, one launch for each tuple, and every record is written from its
    own tuple and its own launch. -/
theorem executeAll_records (l : Launcher σ) (total cursor : Nat) (d : Dispatcher) (memory : σ)
    (batch : List Tuple) :
    ∃ es : List Launched, es.length = batch.length ∧
      (executeAll l total cursor d memory batch).2.2 =
        List.zipWith (recordFor d.tupleDeadline) batch es ∧
      ∀ log, executeAll l.traced total cursor d (memory, log) batch =
        ((executeAll l total cursor d memory batch).1,
          ((executeAll l total cursor d memory batch).2.1, log ++ es.flatMap ofExecution),
          (executeAll l total cursor d memory batch).2.2) := by
  induction batch generalizing cursor d memory with
  | nil => exact ⟨[], rfl, rfl, fun log => by simp [executeAll]⟩
  | cons t batch ih =>
    let here : Dispatcher := { d with state := .executing cursor total }
    let next := here.execute l memory t
    obtain ⟨es, hlength, hrecords, htraced⟩ :=
      ih (cursor + 1) (next.1.showProgress (Progress.ofSteps (cursor + 1) (total + 1))) next.2.1
    refine ⟨here.launchOf l memory :: es, by simp [hlength], ?_, ?_⟩
    · rw [List.zipWith_cons_cons]
      exact congrArg (_ :: ·) hrecords
    · intro log
      have hhere := here.execute_traced l memory log t
      simp only [executeAll]
      rw [hhere]
      simp only
      rw [htraced, List.flatMap_cons, List.append_assoc]

/-- Executions change the injector as their schedule says, and show one step after another. -/
theorem executeAll_dispatcher (l : Launcher σ) (total cursor : Nat) (d : Dispatcher) (memory : σ)
    (batch : List Tuple) :
    ∃ (state : DispatchState) (events : List InjectorEvent),
      events.filter InjectorEvent.isControl = InjectorEvent.ofExecutions batch ∧
      (executeAll l total cursor d memory batch).1 = { d with
        state := state, injector := d.injector.run events,
        session := d.session.showAll
          ((List.range' (cursor + 1) batch.length).map (Progress.ofSteps · (total + 1))) } := by
  induction batch generalizing cursor d memory with
  | nil => exact ⟨d.state, [], rfl, rfl⟩
  | cons t batch ih =>
    let here : Dispatcher := { d with state := .executing cursor total }
    let next := here.execute l memory t
    obtain ⟨events, hevents, hinjector⟩ := here.execute_injector l memory t
    obtain ⟨state, later, hlater, hrest⟩ :=
      ih (cursor + 1) (next.1.showProgress (Progress.ofSteps (cursor + 1) (total + 1))) next.2.1
    refine ⟨state, events ++ later, ?_, ?_⟩
    · rw [List.filter_append, hevents, hlater]
      rfl
    · rw [Injector.run_append]
      exact hrest.trans (by rw [← hinjector]; rfl)

end Dispatcher
end PageProbe
