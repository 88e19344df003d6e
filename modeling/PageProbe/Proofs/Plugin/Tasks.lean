import Mathlib.Data.Prod.Lex
import Mathlib.Logic.Relation
import PageProbe.Plugin.Worker

/-!
Each worker is a task of its own. The tasks share nothing but channels, and run in any order: between two
steps of the brain any of its generators may take a request or send a message, and somebody may post
requests to the brain. The brain takes from the channels of its generators one after another and waits
where nothing has come. Generators that it releases may go on for a while, and nobody hears of them any
more. No schedule goes on for ever.
-/

namespace PageProbe

/-- The task of a generator's worker, with what is on the way to it and from it. -/
structure GeneratorTask where
  worker : GeneratorWorker
  /-- Requests that are posted and not taken. -/
  requests : List Request
  /-- Messages that are made and not sent. -/
  sending : List Response
  /-- Messages that are sent and not received. -/
  replies : List Response

namespace GeneratorTask

def start (w : GeneratorWorker) : GeneratorTask := ⟨w, [], [], []⟩

/-- A task whose plugin has broken down ends with its last message. -/
def ended (g : GeneratorTask) : Bool := !g.worker.alive && g.sending.isEmpty

def post (g : GeneratorTask) (r : Request) : GeneratorTask := { g with requests := g.requests ++ [r] }

/-- What the task does next. -/
inductive Step : GeneratorTask → GeneratorTask → Prop where
  | take {w : GeneratorWorker} {r : Request} {requests : List Request} {replies : List Response}
      (halive : w.alive = true) :
      Step ⟨w, r :: requests, [], replies⟩ ⟨(w.handle r).1, requests, (w.handle r).2, replies⟩
  | send {w : GeneratorWorker} {requests : List Request} {m : Response} {sending replies : List Response} :
      Step ⟨w, requests, m :: sending, replies⟩ ⟨w, requests, sending, replies ++ [m]⟩

/-- More than there is to do. A request comes to at most two messages, each of which is sent and
    received. -/
def work (g : GeneratorTask) : Nat :=
  5 * g.requests.length + 2 * g.sending.length + g.replies.length + 1

end GeneratorTask

theorem GeneratorWorker.length_handle (w : GeneratorWorker) (r : Request) : (w.handle r).2.length ≤ 2 := by
  cases halive : w.alive with
  | false => simp [handle, halive]
  | true =>
    cases r with
    | checkIntegrity file =>
      simp only [handle, halive]
      cases w.generator.check w.calls <;> simp
    | generate g =>
      simp only [handle, halive]
      cases w.generator.generate w.calls g.batchSize g.args <;> simp
    | _ => simp [handle, halive]

theorem GeneratorTask.Step.work_lt {g g' : GeneratorTask} (h : g.Step g') : g'.work < g.work := by
  cases h with
  | @take w r =>
    have hanswers := w.length_handle r
    simp only [work, List.length_cons, List.length_nil]
    omega
  | send =>
    simp only [work, List.length_cons, List.length_append, List.length_nil]
    omega

/-- What the task of a brain is about. -/
inductive BrainPhase where
  | waiting
  /-- Generators are started for what is left of a map. -/
  | starting (todo started : GenerationMap)
  /-- What is left of a plan is posted. -/
  | posting (task : BrainTask) (todo posted : List GenerateRequest)
  /-- The generator at `cursor` is listened to, if anything was posted to it. -/
  | collecting (task : BrainTask) (posted : List GenerateRequest) (cursor : Nat)
      (batches : List GeneratedBatch)
  /-- The brain has broken down. -/
  | stopped

/-- The tasks of a brain and its generators. -/
structure Tasks where
  /-- Requests that will be posted to the brain. -/
  unposted : List Request
  /-- Requests that are posted to the brain and not taken. -/
  inbox : List Request
  rounds : List BrainRound
  phase : BrainPhase
  /-- The generators by position. -/
  slots : List (Nat × GeneratorTask)
  /-- Generators that are released and not gone. -/
  adrift : List GeneratorTask
  /-- What the brain has sent. -/
  sent : List Response

namespace Tasks

/-- The task of a brain to which some requests are going to be posted. -/
def start (requests : List Request) : Tasks := ⟨requests, [], [], .waiting, [], [], []⟩

def send (s : Tasks) (messages : List Response) : Tasks := { s with sent := s.sent ++ messages }

/-- Lets go of the generators. -/
def release (s : Tasks) : Tasks := { s with slots := [], adrift := s.adrift ++ s.slots.map (·.2) }

/-- What becomes of the tasks when the brain breaks down. -/
def stop (s : Tasks) : Tasks := { s.release with phase := .stopped }

/-- Posts a request to the generator of its position. Without one, or when it has ended, nothing is
    posted. -/
def postTo (r : GenerateRequest) : List (Nat × GeneratorTask) → Option (List (Nat × GeneratorTask))
  | [] => none
  | (slot, g) :: rest =>
    if slot = r.id then
      if g.ended then none else some ((slot, g.post (.generate r)) :: rest)
    else (postTo r rest).map ((slot, g) :: ·)

variable (b : BrainWorker)

/-- The brain takes a request. -/
def take (s : Tasks) (r : Request) : Tasks :=
  match r with
  | .checkIntegrity file =>
    match b.brain.check with
    | some check =>
      s.send [Response.result (.integrity ⟨file, check, ⟨b.brain.name, b.brain.description⟩⟩)]
    | none => s.stop
  | .initializeBrain map => { s.release with phase := .starting map [] }
  | .handleGeneration g =>
    let task : BrainTask := ⟨s.slots.map (·.1), g.batchSize, g.previousBatch⟩
    match b.brain.plan s.rounds task with
    | some plan => { s with phase := .posting task plan [] }
    | none => s.stop
  | r => s.send [Response.debug (b.moduleId ++ ": unsupported command") (.string r.command)]

/-- The brain has listened to its generators, lets go of them, and answers. -/
def conclude (s : Tasks) (task : BrainTask) (posted : List GenerateRequest)
    (batches : List GeneratedBatch) : Tasks :=
  let s := (s.send (b.missing posted batches)).release
  match b.brain.assemble s.rounds ⟨task, batches⟩ with
  | some tuples =>
    { s with phase := .waiting, rounds := s.rounds ++ [⟨task, batches⟩] : Tasks }.send
      [Response.result (.assembled tuples)]
  | none => { s with phase := .stopped }

/-- What the brain does with a message of the generator that it listens to. -/
def hear (s : Tasks) (task : BrainTask) (posted : List GenerateRequest) (cursor : Nat)
    (batches : List GeneratedBatch) (m : Response) : Tasks :=
  match m with
  | ⟨true, _⟩ => s.send [m]
  | ⟨false, .generated batch⟩ =>
    { s with phase := .collecting task posted (cursor + 1) (batches ++ [batch]) }
  | _ => s

/-- What the task of the brain does next, if it does not have to wait. What the brain is like it was from the
    beginning; the fields of `b` that change are not used. -/
inductive BrainStep : Tasks → Tasks → Prop where
  | take {s : Tasks} {r : Request} {rest : List Request} (hphase : s.phase = .waiting)
      (hinbox : s.inbox = r :: rest) : BrainStep s (take b { s with inbox := rest } r)
  | start {s : Tasks} {slot : Nat} {module : String} {todo started : GenerationMap} {w : GeneratorWorker}
      (hphase : s.phase = .starting ((slot, module) :: todo) started)
      (hstart : b.startGenerator slot module = .ok w) :
      BrainStep s { s with
        phase := .starting todo (started ++ [(slot, module)])
        slots := s.slots ++ [(slot, .start w)] }
  | reject {s : Tasks} {slot : Nat} {module why : String} {todo started : GenerationMap}
      (hphase : s.phase = .starting ((slot, module) :: todo) started)
      (hstart : b.startGenerator slot module = .error why) :
      BrainStep s ({ s with phase := .starting todo started : Tasks }.send
        [Response.debug (b.moduleId ++ ": generator rejected") (.string why)])
  | mark {s : Tasks} {started : GenerationMap} (hphase : s.phase = .starting [] started) :
      BrainStep s ({ s with phase := .waiting : Tasks }.send [Response.result (.mark started)])
  | post {s : Tasks} {task : BrainTask} {r : GenerateRequest} {todo posted : List GenerateRequest}
      {slots : List (Nat × GeneratorTask)} (hphase : s.phase = .posting task (r :: todo) posted)
      (hpost : postTo r s.slots = some slots) :
      BrainStep s { s with phase := .posting task todo (posted ++ [r]), slots := slots }
  | skip {s : Tasks} {task : BrainTask} {r : GenerateRequest} {todo posted : List GenerateRequest}
      (hphase : s.phase = .posting task (r :: todo) posted) (hpost : postTo r s.slots = none) :
      BrainStep s { s with phase := .posting task todo posted }
  | listen {s : Tasks} {task : BrainTask} {posted : List GenerateRequest}
      (hphase : s.phase = .posting task [] posted) :
      BrainStep s { s with phase := .collecting task posted 0 [] }
  | pass {s : Tasks} {task : BrainTask} {posted : List GenerateRequest} {cursor : Nat}
      {batches : List GeneratedBatch} {slot : Nat} {g : GeneratorTask}
      (hphase : s.phase = .collecting task posted cursor batches)
      (hslot : s.slots[cursor]? = some (slot, g))
      (hsilent : posted.any (·.id == slot) = false ∨ g.replies = [] ∧ g.ended = true) :
      BrainStep s { s with phase := .collecting task posted (cursor + 1) batches }
  | hear {s : Tasks} {task : BrainTask} {posted : List GenerateRequest} {cursor : Nat}
      {batches : List GeneratedBatch} {slot : Nat} {g : GeneratorTask} {m : Response} {rest : List Response}
      (hphase : s.phase = .collecting task posted cursor batches)
      (hslot : s.slots[cursor]? = some (slot, g)) (hasked : posted.any (·.id == slot) = true)
      (hreplies : g.replies = m :: rest) :
      BrainStep s (hear { s with slots := s.slots.set cursor (slot, { g with replies := rest }) }
        task posted cursor batches m)
  | conclude {s : Tasks} {task : BrainTask} {posted : List GenerateRequest} {cursor : Nat}
      {batches : List GeneratedBatch} (hphase : s.phase = .collecting task posted cursor batches)
      (hslot : s.slots[cursor]? = none) : BrainStep s (conclude b s task posted batches)

/-- A step of any of the tasks. -/
inductive Step : Tasks → Tasks → Prop where
  | brain {s s' : Tasks} (h : BrainStep b s s') : Step s s'
  | generator {s : Tasks} {i slot : Nat} {g g' : GeneratorTask} (hslot : s.slots[i]? = some (slot, g))
      (hstep : g.Step g') : Step s { s with slots := s.slots.set i (slot, g') }
  | adrift {s : Tasks} {i : Nat} {g g' : GeneratorTask} (hadrift : s.adrift[i]? = some g)
      (hstep : g.Step g') : Step s { s with adrift := s.adrift.set i g' }
  | gone {s : Tasks} {i : Nat} (hadrift : i < s.adrift.length) :
      Step s { s with adrift := s.adrift.eraseIdx i }
  | request {s : Tasks} {r : Request} {rest : List Request} (hunposted : s.unposted = r :: rest) :
      Step s { s with unposted := rest, inbox := s.inbox ++ [r] }

/-- What the tasks may come to under some schedule. -/
def Reachable (requests : List Request) : Tasks → Prop := Relation.ReflTransGen (Step b) (start requests)

section Work

/-- More than the brain has to do before its next request, but for what its generators send. -/
def phaseWork (slots : Nat) : BrainPhase → Nat
  | .waiting => 0
  | .starting todo _ => 2 * todo.length + 1
  | .posting _ todo _ => 6 * todo.length + slots + 2
  | .collecting _ _ cursor _ => slots - cursor + 1
  | .stopped => 0

def workOf : List GeneratorTask → Nat
  | [] => 0
  | g :: rest => g.work + workOf rest

/-- More than there is to do before the next request. -/
def work (s : Tasks) : Nat :=
  phaseWork s.slots.length s.phase + workOf (s.slots.map (·.2)) + workOf s.adrift

/-- Requests that are not posted count more than those that are. -/
def rank (s : Tasks) : Nat × Nat := (2 * s.unposted.length + s.inbox.length, s.work)

theorem workOf_append (tasks tasks' : List GeneratorTask) :
    workOf (tasks ++ tasks') = workOf tasks + workOf tasks' := by
  induction tasks with
  | nil => exact (Nat.zero_add _).symm
  | cons g rest ih => rw [List.cons_append, workOf, ih, workOf, Nat.add_assoc]

theorem workOf_set_lt {tasks : List GeneratorTask} {i : Nat} {g g' : GeneratorTask}
    (h : tasks[i]? = some g) (hlt : g'.work < g.work) : workOf (tasks.set i g') < workOf tasks := by
  induction tasks generalizing i with
  | nil => cases h
  | cons first rest ih =>
    cases i with
    | zero =>
      obtain rfl := Option.some.inj h
      exact Nat.add_lt_add_right hlt _
    | succ i => exact Nat.add_lt_add_left (ih h) _

theorem workOf_eraseIdx_lt {tasks : List GeneratorTask} {i : Nat} (h : i < tasks.length) :
    workOf (tasks.eraseIdx i) < workOf tasks := by
  induction tasks generalizing i with
  | nil => cases h
  | cons first rest ih =>
    cases i with
    | zero => exact Nat.lt_add_of_pos_left (Nat.succ_pos _)
    | succ i => exact Nat.add_lt_add_left (ih (Nat.lt_of_succ_lt_succ h)) _

/-- A generator of a position comes nearer to its end. -/
theorem workOf_slots_set_lt {slots : List (Nat × GeneratorTask)} {i slot : Nat} {g g' : GeneratorTask}
    (h : slots[i]? = some (slot, g)) (hlt : g'.work < g.work) :
    workOf ((slots.set i (slot, g')).map (·.2)) < workOf (slots.map (·.2)) := by
  rw [List.map_set]
  exact workOf_set_lt (by rw [List.getElem?_map, h]; rfl) hlt

theorem release_work (s : Tasks) :
    s.release.work = phaseWork 0 s.phase + workOf (s.slots.map (·.2)) + workOf s.adrift := by
  simp only [work, release, workOf_append, List.map_nil, List.length_nil, workOf]
  omega

theorem postTo_work {r : GenerateRequest} {slots slots' : List (Nat × GeneratorTask)}
    (h : postTo r slots = some slots') :
    slots'.length = slots.length ∧ workOf (slots'.map (·.2)) = workOf (slots.map (·.2)) + 5 := by
  induction slots generalizing slots' with
  | nil => cases h
  | cons first rest ih =>
    rw [postTo] at h
    split at h
    · split at h
      · cases h
      · cases h
        refine ⟨rfl, ?_⟩
        simp only [workOf, GeneratorTask.post, GeneratorTask.work, List.map_cons, List.length_append,
          List.length_cons, List.length_nil]
        omega
    · obtain ⟨rest', hrest, rfl⟩ := Option.map_eq_some_iff.mp h
      obtain ⟨hlength, hwork⟩ := ih hrest
      refine ⟨congrArg (· + 1) hlength, ?_⟩
      simp only [workOf, List.map_cons] at hwork ⊢
      omega

theorem take_queues (s : Tasks) (r : Request) :
    (take b s r).unposted = s.unposted ∧ (take b s r).inbox = s.inbox := by
  cases r with
  | checkIntegrity file =>
    rw [take]
    cases b.brain.check <;> exact ⟨rfl, rfl⟩
  | handleGeneration g =>
    rw [take]
    cases b.brain.plan s.rounds ⟨s.slots.map (·.1), g.batchSize, g.previousBatch⟩ <;> exact ⟨rfl, rfl⟩
  | _ => exact ⟨rfl, rfl⟩

/-- A step that leaves the requests alone has to come nearer to the next one. -/
theorem rank_lt_of_work {s s' : Tasks} (hunposted : s'.unposted = s.unposted) (hinbox : s'.inbox = s.inbox)
    (hwork : s'.work < s.work) : Prod.Lex (· < ·) (· < ·) s'.rank s.rank := by
  refine Prod.lex_def.mpr (.inr ⟨?_, hwork⟩)
  rw [rank, rank, hunposted, hinbox]

theorem conclude_rank {s : Tasks} {task : BrainTask} {posted : List GenerateRequest} {cursor : Nat}
    {batches : List GeneratedBatch} (hphase : s.phase = .collecting task posted cursor batches) :
    Prod.Lex (· < ·) (· < ·) (conclude b s task posted batches).rank s.rank := by
  have hreleased (phase : BrainPhase) (hidle : phaseWork 0 phase = 0) :
      { s with phase := phase }.release.work < s.work := by
    rw [release_work, work, hphase, phaseWork]
    dsimp only
    omega
  rw [conclude]
  cases hassemble : b.brain.assemble s.rounds ⟨task, batches⟩ with
  | some tuples =>
    simp only [send, release, hassemble]
    exact rank_lt_of_work rfl rfl (hreleased .waiting rfl)
  | none =>
    simp only [send, release, hassemble]
    exact rank_lt_of_work rfl rfl (hreleased .stopped rfl)

theorem hear_rank {s : Tasks} {task : BrainTask} {posted : List GenerateRequest} {cursor : Nat}
    {batches : List GeneratedBatch} {slot : Nat} {g : GeneratorTask} {m : Response} {rest : List Response}
    (hphase : s.phase = .collecting task posted cursor batches) (hslot : s.slots[cursor]? = some (slot, g))
    (hreplies : g.replies = m :: rest) :
    Prod.Lex (· < ·) (· < ·)
      (hear { s with slots := s.slots.set cursor (slot, { g with replies := rest }) }
        task posted cursor batches m).rank s.rank := by
  have hreceived : { g with replies := rest : GeneratorTask }.work < g.work := by
    simp [GeneratorTask.work, hreplies]
  have hless := workOf_slots_set_lt hslot hreceived
  unfold hear
  split
  all_goals
    refine rank_lt_of_work rfl rfl ?_
    simp only [work, send, phaseWork, hphase, List.length_set]
    omega

/-- The brain goes on to its next request, or comes nearer to it. -/
theorem BrainStep.rank_lt {s s' : Tasks} (h : BrainStep b s s') :
    Prod.Lex (· < ·) (· < ·) s'.rank s.rank := by
  cases h with
  | @take r rest hphase hinbox =>
    obtain ⟨hunposted, hleft⟩ := take_queues b { s with inbox := rest } r
    refine .left _ _ ?_
    rw [hunposted, hleft, hinbox, List.length_cons]
    exact Nat.lt_succ_self _
  | start hphase =>
    refine rank_lt_of_work rfl rfl ?_
    simp only [work, hphase, phaseWork, List.map_append, workOf_append, List.length_cons]
    simp only [workOf, GeneratorTask.start, GeneratorTask.work, List.map_cons, List.map_nil, List.length_nil]
    omega
  | reject hphase =>
    refine rank_lt_of_work rfl rfl ?_
    simp only [work, send, hphase, phaseWork, List.length_cons]
    omega
  | mark hphase =>
    refine rank_lt_of_work rfl rfl ?_
    simp only [work, send, hphase, phaseWork]
    omega
  | post hphase hpost =>
    obtain ⟨hlength, hwork⟩ := postTo_work hpost
    refine rank_lt_of_work rfl rfl ?_
    simp only [work, hphase, phaseWork, hlength, hwork, List.length_cons]
    omega
  | skip hphase =>
    refine rank_lt_of_work rfl rfl ?_
    simp only [work, hphase, phaseWork, List.length_cons]
    omega
  | listen hphase =>
    refine rank_lt_of_work rfl rfl ?_
    simp only [work, hphase, phaseWork]
    omega
  | pass hphase hslot =>
    have hcursor := (List.getElem?_eq_some_iff.mp hslot).1
    refine rank_lt_of_work rfl rfl ?_
    simp only [work, hphase, phaseWork]
    omega
  | hear hphase hslot _ hreplies => exact hear_rank hphase hslot hreplies
  | conclude hphase => exact conclude_rank b hphase

theorem Step.rank_lt {s s' : Tasks} (h : Step b s s') : Prod.Lex (· < ·) (· < ·) s'.rank s.rank := by
  cases h with
  | brain h => exact h.rank_lt
  | generator hslot hstep =>
    refine rank_lt_of_work rfl rfl ?_
    have hless := workOf_slots_set_lt hslot hstep.work_lt
    simp only [work, List.length_set]
    omega
  | adrift hadrift hstep =>
    refine rank_lt_of_work rfl rfl ?_
    exact Nat.add_lt_add_left (workOf_set_lt hadrift hstep.work_lt) _
  | gone hadrift =>
    refine rank_lt_of_work rfl rfl ?_
    exact Nat.add_lt_add_left (workOf_eraseIdx_lt hadrift) _
  | request hunposted =>
    refine .left _ _ ?_
    rw [hunposted, List.length_cons, List.length_append, List.length_singleton]
    dsimp only
    omega

/-- No schedule goes on for ever. -/
theorem step_wellFounded : WellFounded fun s' s => Step b s s' :=
  Subrelation.wf (fun h => h.rank_lt) (InvImage.wf rank (Prod.lex ⟨_, Nat.lt_wfRel.wf⟩ ⟨_, Nat.lt_wfRel.wf⟩).wf)

end Work

end Tasks
end PageProbe
