import PageProbe.Proofs.Injection.Streaming

namespace PageProbe

/-- What may be done to an injector that is shared. Each of these is done as a whole, whoever does it. -/
inductive InjectorEvent where
  | select (tree : FunctionTree) (path : String) (dependencyArgs : List (List String))
  | clear
  | load (batch : List Tuple)
  | activate
  | deactivate
  | settle (uuid : String)
  /-- A context passes a piece, through whatever handle it has. -/
  | fetch (piece : Chunk)

namespace InjectorEvent

def isFetch : InjectorEvent → Bool
  | fetch _ => true
  | _ => false

def isActivate : InjectorEvent → Bool
  | activate => true
  | _ => false

/-- What a dispatcher does itself. -/
def isControl (e : InjectorEvent) : Bool := !e.isFetch

/-- What a dispatcher does for the execution of one tuple. -/
def ofExecution (t : Tuple) : List InjectorEvent := [activate, deactivate, settle t.uuid]

/-- What a dispatcher does for the executions of some tuples, one after another. -/
def ofExecutions (batch : List Tuple) : List InjectorEvent := batch.flatMap ofExecution

/-- How many executions have been started. -/
def activations (events : List InjectorEvent) : Nat := events.countP isActivate

end InjectorEvent

open InjectorEvent

namespace Injector

/-- A choice that fails changes nothing. -/
def step (i : Injector) : InjectorEvent → Injector
  | .select tree path dependencyArgs =>
    match i.select tree path dependencyArgs with
    | .ok i => i
    | .error _ => i
  | .clear => i.clear
  | .load batch => i.load batch
  | .activate => i.activate
  | .deactivate => i.deactivate
  | .settle uuid => i.settle uuid
  | .fetch piece => (i.intercept piece).1

def run (i : Injector) (events : List InjectorEvent) : Injector := events.foldl step i

/-- The tuple that an event takes out of the queue in order to inject it. -/
def taken (i : Injector) : InjectorEvent → Option Tuple
  | .fetch piece => if (i.intercept piece).1.queue.length < i.queue.length then i.queue.head? else none
  | _ => none

/-- The tuples that are injected in the course of some events. -/
def takenDuring (i : Injector) : List InjectorEvent → List Tuple
  | [] => []
  | e :: rest => (i.taken e).toList ++ (i.step e).takenDuring rest

@[simp] theorem run_nil (i : Injector) : i.run [] = i := rfl

@[simp] theorem run_cons (i : Injector) (e : InjectorEvent) (events : List InjectorEvent) :
    i.run (e :: events) = (i.step e).run events := rfl

theorem run_append (i : Injector) (front back : List InjectorEvent) :
    i.run (front ++ back) = (i.run front).run back := List.foldl_append

/-- A piece either leaves the queue and the flag alone, or takes the next tuple and disarms the
    injector. -/
theorem intercept_cases (i : Injector) (piece : Chunk) :
    ((i.intercept piece).1.queue = i.queue ∧ (i.intercept piece).1.active = i.active) ∨
      ∃ t rest, i.active = true ∧ i.queue = t :: rest ∧
        (i.intercept piece).1.queue = rest ∧ (i.intercept piece).1.active = false := by
  rcases i.intercept_state piece with hsame | ⟨target, -, -, hpassed⟩
  · rw [hsame]
    exact .inl ⟨rfl, rfl⟩
  · rw [hpassed]
    rcases i.arm_cases target piece with harm | ⟨t, rest, hactive, hqueue, -, harm⟩
    · rw [harm]
      exact .inl ⟨rfl, rfl⟩
    · rw [harm]
      exact .inr ⟨t, rest, hactive, hqueue, rfl, rfl⟩

theorem intercept_of_inactive {i : Injector} (hinactive : i.active = false) (piece : Chunk) :
    (i.intercept piece).1.queue = i.queue ∧ (i.intercept piece).1.active = false := by
  rcases i.intercept_cases piece with ⟨hqueue, hactive⟩ | ⟨_, _, hactive, _⟩
  · exact ⟨hqueue, hactive.trans hinactive⟩
  · rw [hinactive] at hactive
    cases hactive

theorem settle_active (i : Injector) (uuid : String) : (i.settle uuid).active = i.active := by
  rw [settle]
  split
  · split <;> rfl
  · rfl

/-- Only the start of an execution arms the injector. -/
theorem step_of_inactive {i : Injector} (hinactive : i.active = false) {e : InjectorEvent}
    (he : e.isActivate = false) : (i.step e).active = false := by
  cases e with
  | select tree path dependencyArgs =>
    simp only [step, select]
    cases InjectionTarget.ofPath tree path dependencyArgs with
    | error => exact hinactive
    | ok => rfl
  | clear => rfl
  | load => exact hinactive
  | activate => cases he
  | deactivate => rfl
  | settle uuid => exact (i.settle_active uuid).trans hinactive
  | fetch piece => exact (intercept_of_inactive hinactive piece).2

theorem taken_of_inactive {i : Injector} (hinactive : i.active = false) (e : InjectorEvent) :
    i.taken e = none := by
  cases e with
  | fetch piece => simp [taken, (intercept_of_inactive hinactive piece).1]
  | _ => rfl

/-- Nothing is injected before the next execution starts. -/
theorem takenDuring_of_inactive {i : Injector} {events : List InjectorEvent}
    (hinactive : i.active = false) (hevents : ∀ e ∈ events, e.isActivate = false) :
    i.takenDuring events = [] := by
  induction events generalizing i with
  | nil => rfl
  | cons e rest ih =>
    have hstep := step_of_inactive hinactive (hevents e List.mem_cons_self)
    rw [takenDuring, taken_of_inactive hinactive,
      ih hstep fun f hf => hevents f (List.mem_cons_of_mem e hf)]
    rfl

/-- While nothing but fetches comes before its end, an execution injects its own tuple at most once. -/
theorem takenDuring_of_running {i : Injector} {events todo : List InjectorEvent} {t : Tuple}
    {rest : List Tuple} (hqueue : i.queue = t :: rest)
    (hevents : ∀ e ∈ events, e.isActivate = false)
    (htodo : events.filter isControl <+: .deactivate :: todo) :
    i.takenDuring events = [] ∨ i.takenDuring events = [t] := by
  induction events generalizing i with
  | nil => exact .inl rfl
  | cons e events ih =>
    have hlater (f : InjectorEvent) (hf : f ∈ events) := hevents f (List.mem_cons_of_mem e hf)
    cases he : e.isFetch with
    | false =>
      have hcontrol : e.isControl = true := by simp [isControl, he]
      rw [List.filter_cons_of_pos hcontrol] at htodo
      obtain ⟨rfl, _⟩ := List.cons_prefix_cons.mp htodo
      left
      rw [takenDuring, takenDuring_of_inactive rfl hlater]
      rfl
    | true =>
      have hcontrol : ¬ e.isControl = true := by simp [isControl, he]
      rw [List.filter_cons_of_neg hcontrol] at htodo
      cases e with
      | fetch piece =>
        rcases i.intercept_cases piece with ⟨hsame, _⟩ | ⟨t', rest', _, hfront, hnext, hdone⟩
        · have hnone : i.taken (.fetch piece) = none := by simp [taken, hsame]
          rw [takenDuring, hnone]
          exact ih (hsame.trans hqueue) hlater htodo
        · rw [hqueue] at hfront
          obtain ⟨rfl, rfl⟩ := List.cons.inj hfront
          have hsome : i.taken (.fetch piece) = some t := by simp [taken, hnext, hqueue]
          have hspent : (i.step (.fetch piece)).active = false := hdone
          right
          rw [takenDuring, hsome, takenDuring_of_inactive hspent hlater]
          rfl
      | _ => cases he

/-- Where the executions of a batch are, and how the injector stands to that. Of the batch, `started`
    tuples have had their execution started, and `todo` is what the dispatcher still has to do. -/
inductive Aligned (batch : List Tuple) : Nat → List InjectorEvent → Injector → Prop where
  | unloaded {i : Injector} (hinactive : i.active = false) :
      Aligned batch 0 (.load batch :: ofExecutions batch) i
  | between {started : Nat} {i : Injector} (hinactive : i.active = false)
      (hqueue : i.queue = batch.drop started) :
      Aligned batch started (ofExecutions (batch.drop started)) i
  | running {started : Nat} {t : Tuple} {i : Injector} (hcurrent : batch[started]? = some t)
      (hqueue : i.queue = batch.drop started ∨
        i.active = false ∧ i.queue = batch.drop (started + 1)) :
      Aligned batch (started + 1)
        (.deactivate :: .settle t.uuid :: ofExecutions (batch.drop (started + 1))) i
  | stopped {started : Nat} {t : Tuple} {i : Injector} (hcurrent : batch[started]? = some t)
      (hinactive : i.active = false)
      (hqueue : i.queue = batch.drop started ∨ i.queue = batch.drop (started + 1)) :
      Aligned batch (started + 1) (.settle t.uuid :: ofExecutions (batch.drop (started + 1))) i

theorem drop_eq_cons {batch : List Tuple} {n : Nat} {t : Tuple} (h : batch[n]? = some t) :
    batch.drop n = t :: batch.drop (n + 1) := by
  obtain ⟨hlt, hget⟩ := List.getElem?_eq_some_iff.mp h
  rw [List.drop_eq_getElem_cons hlt, hget]

theorem getElem?_of_drop {batch rest : List Tuple} {n : Nat} {t : Tuple} (h : batch.drop n = t :: rest) :
    batch[n]? = some t := by
  rw [← List.head?_drop, h]
  rfl

/-- Fetches keep the injector in step, wherever the executions are. -/
theorem Aligned.fetch {batch : List Tuple} {started : Nat} {todo : List InjectorEvent} {i : Injector}
    (h : Aligned batch started todo i) (piece : Chunk) :
    Aligned batch started todo (i.step (.fetch piece)) := by
  cases h with
  | unloaded hinactive => exact .unloaded (intercept_of_inactive hinactive piece).2
  | between hinactive hqueue =>
    obtain ⟨hsame, hstill⟩ := intercept_of_inactive hinactive piece
    exact .between hstill (hsame.trans hqueue)
  | running hcurrent hqueue =>
    refine .running hcurrent ?_
    rcases i.intercept_cases piece with ⟨hsame, hstill⟩ | ⟨t', rest, hactive, hfront, hnext, hdone⟩
    · rcases hqueue with hqueue | ⟨hinactive, hqueue⟩
      · exact .inl (hsame.trans hqueue)
      · exact .inr ⟨hstill.trans hinactive, hsame.trans hqueue⟩
    · rcases hqueue with hqueue | ⟨hinactive, _⟩
      · rw [hqueue, drop_eq_cons hcurrent] at hfront
        obtain ⟨_, rfl⟩ := List.cons.inj hfront
        exact .inr ⟨hdone, hnext⟩
      · rw [hinactive] at hactive
        cases hactive
  | stopped hcurrent hinactive hqueue =>
    obtain ⟨hsame, hstill⟩ := intercept_of_inactive hinactive piece
    exact .stopped hcurrent hstill (by rwa [show (i.step (.fetch piece)).queue = i.queue from hsame])

/-- Settling an execution drops its tuple if it is still there, and leaves the next one alone because
    that has an id of its own. -/
theorem settle_queue {batch : List Tuple} (hids : (batch.map (·.uuid)).Nodup) {started : Nat} {t : Tuple}
    {i : Injector} (hcurrent : batch[started]? = some t)
    (hqueue : i.queue = batch.drop started ∨ i.queue = batch.drop (started + 1)) :
    (i.settle t.uuid).queue = batch.drop (started + 1) := by
  rcases hqueue with hqueue | hqueue
  · rw [drop_eq_cons hcurrent] at hqueue
    simp [settle, hqueue]
  · cases hnext : batch.drop (started + 1) with
    | nil =>
      rw [hnext] at hqueue
      simp [settle, hqueue]
    | cons t' rest =>
      have hother : t'.uuid ≠ t.uuid := by
        have hdrop : (batch.map (·.uuid)).drop started = t.uuid :: t'.uuid :: rest.map (·.uuid) := by
          rw [← List.map_drop, drop_eq_cons hcurrent, hnext]
          rfl
        have hnodup := hids.sublist (List.drop_sublist started _)
        rw [hdrop] at hnodup
        intro heq
        exact (List.nodup_cons.mp hnodup).1 (by simp [heq])
      rw [hnext] at hqueue
      simp [settle, hqueue, hother]

/-- The next thing that the dispatcher does keeps the injector in step. -/
theorem Aligned.control {batch : List Tuple} (hids : (batch.map (·.uuid)).Nodup) {started : Nat}
    {e : InjectorEvent} {todo : List InjectorEvent} {i : Injector}
    (h : Aligned batch started (e :: todo) i) :
    Aligned batch (started + activations [e]) todo (i.step e) := by
  generalize hall : e :: todo = all at h
  cases h with
  | unloaded hinactive =>
    obtain ⟨rfl, rfl⟩ := List.cons.inj hall
    exact .between hinactive rfl
  | between hinactive hqueue =>
    cases hrest : batch.drop started with
    | nil =>
      rw [hrest] at hall
      cases hall
    | cons t rest =>
      have hcurrent := getElem?_of_drop hrest
      rw [drop_eq_cons hcurrent] at hall
      obtain ⟨rfl, rfl⟩ := List.cons.inj hall
      exact .running hcurrent (.inl hqueue)
  | running hcurrent hqueue =>
    obtain ⟨rfl, rfl⟩ := List.cons.inj hall
    exact .stopped hcurrent rfl (hqueue.imp id And.right)
  | stopped hcurrent hinactive hqueue =>
    obtain ⟨rfl, rfl⟩ := List.cons.inj hall
    exact .between ((i.settle_active _).trans hinactive) (settle_queue hids hcurrent hqueue)

/-- Whatever is fetched meanwhile, the injector stays in step with what the dispatcher does. -/
theorem Aligned.run {batch : List Tuple} (hids : (batch.map (·.uuid)).Nodup) {started : Nat}
    {front back : List InjectorEvent} {i : Injector}
    (h : Aligned batch started ((front ++ back).filter isControl) i) :
    Aligned batch (started + activations front) (back.filter isControl) (i.run front) := by
  induction front generalizing started i with
  | nil => exact h
  | cons e front ih =>
    cases he : e.isFetch with
    | true =>
      have hcontrol : ¬ e.isControl = true := by simp [isControl, he]
      rw [List.cons_append, List.filter_cons_of_neg hcontrol] at h
      cases e with
      | fetch piece =>
        have hcount : activations (.fetch piece :: front) = activations front := rfl
        rw [hcount]
        exact ih (h.fetch piece)
      | _ => cases he
    | false =>
      have hcontrol : e.isControl = true := by simp [isControl, he]
      rw [List.cons_append, List.filter_cons_of_pos hcontrol] at h
      have hcount : activations (e :: front) = activations [e] + activations front := by
        rw [activations, ← List.singleton_append, List.countP_append]
        rfl
      rw [hcount, ← Nat.add_assoc]
      exact ih (h.control hids)

/-- When an execution starts, the queue holds its tuple and those behind it. -/
theorem Aligned.of_activate {batch : List Tuple} {started : Nat} {todo : List InjectorEvent}
    {i : Injector} (h : Aligned batch started (.activate :: todo) i) :
    ∃ t, batch[started]? = some t ∧ i.queue = t :: batch.drop (started + 1) ∧
      ∃ later, todo = .deactivate :: later := by
  generalize hall : InjectorEvent.activate :: todo = all at h
  cases h with
  | unloaded => cases hall
  | running => cases hall
  | stopped => cases hall
  | between _ hqueue =>
    cases hrest : batch.drop started with
    | nil =>
      rw [hrest] at hall
      cases hall
    | cons t rest =>
      have hcurrent := getElem?_of_drop hrest
      rw [drop_eq_cons hcurrent] at hall hqueue
      obtain ⟨_, rfl⟩ := List.cons.inj hall
      exact ⟨t, hcurrent, hqueue, _, rfl⟩

/-- When the dispatcher is done, so is the injector. -/
theorem Aligned.of_nil {batch : List Tuple} {started : Nat} {i : Injector}
    (h : Aligned batch started [] i) : i.queue = [] ∧ i.active = false := by
  generalize hall : ([] : List InjectorEvent) = all at h
  cases h with
  | unloaded => cases hall
  | running => cases hall
  | stopped => cases hall
  | between hinactive hqueue =>
    cases hrest : batch.drop started with
    | nil => exact ⟨hqueue.trans hrest, hinactive⟩
    | cons t rest =>
      rw [hrest] at hall
      cases hall

theorem select_active {before i : Injector} {tree : FunctionTree} {path : String}
    {dependencyArgs : List (List String)} (h : before.select tree path dependencyArgs = .ok i) :
    i.active = false := by
  rw [select] at h
  cases htarget : InjectionTarget.ofPath tree path dependencyArgs with
  | error => rw [htarget] at h; cases h
  | ok => rw [htarget] at h; cases h; rfl

/-- A batch of tuples with different ids stays in step with its executions, from the choice of the
    target on and for all that contexts of this run or of earlier ones fetch in between. When the
    `n`-th execution starts, the queue holds just the tuples from the `n`-th on. Until the next one
    starts, at most one tuple is injected, and that is the `n`-th. Nothing is injected before the first
    execution, and after the last one the queue is empty and the injector is not armed. -/
theorem run_executions {before i : Injector} {tree : FunctionTree} {path : String}
    {dependencyArgs : List (List String)} {batch : List Tuple} {events : List InjectorEvent}
    (hselect : before.select tree path dependencyArgs = .ok i)
    (hids : (batch.map (·.uuid)).Nodup)
    (hevents : events.filter isControl = .load batch :: ofExecutions batch) :
    (∀ front back, events = front ++ .activate :: back →
      (i.run front).queue = batch.drop (activations front)) ∧
    (∀ front window back, events = front ++ .activate :: (window ++ back) →
      (∀ e ∈ window, e.isActivate = false) →
      (i.run (front ++ [.activate])).takenDuring window = [] ∨
        ∃ t, batch[activations front]? = some t ∧
          (i.run (front ++ [.activate])).takenDuring window = [t]) ∧
    (∀ front back, events = front ++ back → (∀ e ∈ front, e.isActivate = false) →
      i.takenDuring front = []) ∧
    (i.run events).queue = [] ∧ (i.run events).active = false := by
  have hinactive := select_active hselect
  have hrun (front back : List InjectorEvent) (hparts : events = front ++ back) :
      Aligned batch (activations front) (back.filter isControl) (i.run front) := by
    have hstart : Aligned batch 0 ((front ++ back).filter isControl) i := by
      rw [← hparts, hevents]
      exact .unloaded hinactive
    simpa using hstart.run hids
  refine ⟨?_, ?_, ?_, ?_⟩
  · intro front back hparts
    obtain ⟨t, hcurrent, hqueue, _⟩ := (hrun front _ hparts).of_activate
    rw [hqueue, drop_eq_cons hcurrent]
  · intro front window back hparts hwindow
    obtain ⟨t, hcurrent, hqueue, later, hlater⟩ := (hrun front _ hparts).of_activate
    have htodo : window.filter isControl <+: .deactivate :: later := by
      rw [← hlater, List.filter_append]
      exact List.prefix_append _ _
    have hstarted : (i.run (front ++ [.activate])).queue = t :: batch.drop (activations front + 1) := by
      rw [run_append]
      exact hqueue
    rcases takenDuring_of_running hstarted hwindow htodo with hnone | hone
    · exact .inl hnone
    · exact .inr ⟨t, hcurrent, hone⟩
  · intro front _ _ hfront
    exact takenDuring_of_inactive hinactive hfront
  · have hend := hrun events [] (List.append_nil events).symm
    exact hend.of_nil

end Injector

namespace Sample

/-- The whole script, passed through a handle that may be of any age. -/
def fetchScript : InjectorEvent := .fetch script.whole

def batch : List Tuple := [⟨"u", some []⟩, ⟨"v", none⟩]

/-- The first execution asks for the script twice and once more when it is over, the second one never
    does. -/
def events : List InjectorEvent :=
  [fetchScript, .load batch, .activate, fetchScript, fetchScript, .deactivate, fetchScript,
    .settle "u", fetchScript, .activate, .deactivate, fetchScript, .settle "v"]

end Sample

theorem Injector.run_executions_late :
    (Sample.selected.run (Sample.events.take 9)).queue = [⟨"v", none⟩] ∧
      (Sample.selected.run Sample.events).queue = [] ∧
      (Sample.selected.run Sample.events).active = false := by
  have hselect : Injector.empty.select Sample.tree "/a.js/outer/inner" [["1"]] = .ok Sample.selected :=
    rfl
  obtain ⟨hqueue, _, _, hend⟩ := run_executions hselect
    (show (Sample.batch.map (·.uuid)).Nodup by decide)
    (show Sample.events.filter isControl = .load Sample.batch :: ofExecutions Sample.batch from rfl)
  exact ⟨hqueue (Sample.events.take 9) (Sample.events.drop 10) rfl, hend⟩

end PageProbe
