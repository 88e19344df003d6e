import PageProbe.Proofs.Plugin.Combinations
import PageProbe.Proofs.Plugin.Tasks

namespace PageProbe

open Json (Value)

/-- Values are had of it whatever it has been called for before. -/
def Generator.NeverFails (g : Generator) : Prop :=
  ∀ calls batchSize args, (g.generate calls batchSize args).isSome = true

/-- None of the generators breaks down over a batch. -/
def Catalog.NeverFails (c : Catalog) : Prop := ∀ id slot g, c.generator id slot = .ok g → g.NeverFails

theorem map_set_of_eq {f : α → β} {l : List α} {i : Nat} {a a' : α} (h : l[i]? = some a)
    (heq : f a' = f a) : (l.set i a').map f = l.map f := by
  obtain ⟨hi, rfl⟩ := List.getElem?_eq_some_iff.mp h
  rw [List.map_set, heq, ← List.getElem_map f (h := by simpa using hi), List.set_getElem_self]

/-- Requests that brains have no answer to. -/
def Request.isForeign : Request → Bool
  | .checkIntegrity _ => false
  | .initializeBrain _ => false
  | .handleGeneration _ => false
  | _ => true

namespace GeneratorWorker

variable {w : GeneratorWorker}

/-- The worker after several requests, and its answers. -/
def handleAll (w : GeneratorWorker) : List Request → GeneratorWorker × List Response
  | [] => (w, [])
  | r :: rest => (((w.handle r).1.handleAll rest).1, (w.handle r).2 ++ ((w.handle r).1.handleAll rest).2)

theorem handleAll_append (w : GeneratorWorker) (front back : List Request) :
    w.handleAll (front ++ back) = (((w.handleAll front).1.handleAll back).1,
      (w.handleAll front).2 ++ ((w.handleAll front).1.handleAll back).2) := by
  induction front generalizing w with
  | nil => rfl
  | cons r front ih =>
    rw [List.cons_append, handleAll, ih, handleAll]
    simp only [List.append_assoc]

/-- The worker is there, and its plugin will not break down. -/
def Sturdy (w : GeneratorWorker) : Prop := w.alive = true ∧ w.generator.NeverFails

theorem Sturdy.handle_generate (h : w.Sturdy) (r : GenerateRequest) :
    (w.handle (.generate r)).1.Sturdy ∧ ∃ values, (w.handle (.generate r)).2 =
      [w.announce r, Response.result (.generated ⟨r.id, values⟩)] := by
  obtain ⟨values, hvalues⟩ := Option.isSome_iff_exists.mp (h.2 w.calls r.batchSize r.args)
  simp only [handle, h.1, hvalues, Bool.not_true, Bool.false_eq_true, if_false]
  exact ⟨⟨rfl, h.2⟩, values, rfl⟩

theorem Sturdy.handleAll (h : w.Sturdy) {requests : List Request}
    (hrequests : ∀ r ∈ requests, ∃ g, r = .generate g) : (w.handleAll requests).1.Sturdy := by
  induction requests generalizing w with
  | nil => exact h
  | cons r rest ih =>
    obtain ⟨g, rfl⟩ := hrequests _ List.mem_cons_self
    exact ih (h.handle_generate g).1 fun r hr => hrequests r (List.mem_cons_of_mem _ hr)

end GeneratorWorker

namespace GeneratorTask

variable {g g' : GeneratorTask}

/-- What the task comes to when it is left alone: its worker, and the messages that nobody has received. -/
def settled (g : GeneratorTask) : GeneratorWorker × List Response :=
  ((g.worker.handleAll g.requests).1, g.replies ++ g.sending ++ (g.worker.handleAll g.requests).2)

theorem settled_start (w : GeneratorWorker) : (start w).settled = (w, []) := rfl

/-- A message that is received is the first of what the generator will have sent. -/
theorem settled_of_replies {m : Response} {rest : List Response} (h : g.replies = m :: rest) :
    g.settled.2 = m :: { g with replies := rest : GeneratorTask }.settled.2 := by
  rw [settled, h]
  rfl

/-- The task goes where it was going anyway. -/
theorem Step.settled_eq (h : g.Step g') : g'.settled = g.settled := by
  cases h with
  | take => simp [settled, GeneratorWorker.handleAll]
  | send => simp [settled]

/-- A task that nothing was posted to has nothing to do. -/
theorem not_step_start (w : GeneratorWorker) : ¬ (start w).Step g' := nofun

def postAll (g : GeneratorTask) (requests : List Request) : GeneratorTask :=
  { g with requests := g.requests ++ requests }

theorem postAll_nil (g : GeneratorTask) : g.postAll [] = g := by
  rw [postAll, List.append_nil]

theorem post_postAll (g : GeneratorTask) (r : Request) (requests : List Request) :
    (g.post r).postAll requests = g.postAll (r :: requests) := by
  simp [post, postAll]

theorem settled_postAll (g : GeneratorTask) (requests : List Request) :
    (g.postAll requests).settled = ((g.settled.1.handleAll requests).1,
      g.settled.2 ++ (g.settled.1.handleAll requests).2) := by
  simp only [settled, postAll, GeneratorWorker.handleAll_append, List.append_assoc]

/-- Nothing but values is asked of the worker, and it can give them. -/
structure Sound (g : GeneratorTask) : Prop where
  sturdy : g.worker.Sturdy
  asked : ∀ r ∈ g.requests, ∃ q, r = .generate q

theorem Sound.step (hg : g.Sound) (h : g.Step g') : g'.Sound := by
  cases h with
  | take =>
    obtain ⟨q, rfl⟩ := hg.asked _ List.mem_cons_self
    exact ⟨(hg.sturdy.handle_generate q).1, fun r hr => hg.asked r (List.mem_cons_of_mem _ hr)⟩
  | send => exact ⟨hg.sturdy, hg.asked⟩

theorem Sound.post (hg : g.Sound) (r : GenerateRequest) : (g.post (.generate r)).Sound where
  sturdy := hg.sturdy
  asked q hq := by
    rcases List.mem_append.mp hq with hq | hq
    · exact hg.asked q hq
    · exact ⟨r, List.mem_singleton.mp hq⟩

theorem Sound.not_ended (hg : g.Sound) : g.ended = false := by
  rw [ended, hg.sturdy.1]
  rfl

/-- As long as there are messages to come, the task sends one, or takes a request. -/
theorem Sound.step_or_replies (hg : g.Sound) (h : g.settled.2 ≠ []) : g.replies ≠ [] ∨ ∃ g', g.Step g' := by
  obtain ⟨w, requests, sending, replies⟩ := g
  cases replies with
  | cons m replies => exact .inl (List.cons_ne_nil _ _)
  | nil =>
    cases sending with
    | cons m sending => exact .inr ⟨_, .send⟩
    | nil =>
      cases requests with
      | cons r requests => exact .inr ⟨_, .take hg.sturdy.1⟩
      | nil => exact absurd rfl h

end GeneratorTask

namespace BrainWorker

/-- The first batch counts, so it does not matter what comes after it. -/
theorem readBatch_append {messages : List Response} (h : (readBatch messages).2.isSome = true)
    (more : List Response) : readBatch (messages ++ more) = readBatch messages := by
  induction messages with
  | nil => cases h
  | cons m rest ih =>
    obtain ⟨_ | _, body⟩ := m
    · cases body with
      | generated batch => rfl
      | _ => exact ih h
    · exact congrArg (fun r : List Response × Option GeneratedBatch => (⟨true, body⟩ :: r.1, r.2)) (ih h)

theorem readBatch_generated (messages : List Response) (batch : GeneratedBatch) :
    (readBatch (messages ++ [Response.result (.generated batch)])).2.isSome = true := by
  induction messages with
  | nil => rfl
  | cons m rest ih =>
    obtain ⟨_ | _, body⟩ := m
    · cases body with
      | generated batch => rfl
      | _ => exact ih
    · exact ih

/-- A generator that is posted a request will have a batch to send. -/
theorem readBatch_post {g : GeneratorTask} (hg : g.Sound) (r : GenerateRequest) :
    (readBatch (g.post (.generate r)).settled.2).2.isSome = true := by
  obtain ⟨_, values, hanswer⟩ := (hg.sturdy.handleAll hg.asked).handle_generate r
  have hsettled : (g.post (.generate r)).settled.2 =
      (g.settled.2 ++ [g.settled.1.announce r]) ++ [Response.result (.generated ⟨r.id, values⟩)] := by
    change (g.postAll [.generate r]).settled.2 = _
    rw [GeneratorTask.settled_postAll, GeneratorWorker.handleAll, List.append_assoc]
    exact congrArg (g.settled.2 ++ ·) ((List.append_nil _).trans hanswer)
  rw [hsettled]
  exact readBatch_generated _ _

section Handle

variable {w : BrainWorker}

theorem handle_check {check : Checks} (halive : w.alive = true) (hcheck : w.brain.check = some check)
    (file : String) : w.handle (.checkIntegrity file) =
      (w, [Response.result (.integrity ⟨file, check, ⟨w.brain.name, w.brain.description⟩⟩)]) := by
  simp only [handle, halive, hcheck]
  rfl

theorem handle_brokenCheck (halive : w.alive = true) (hcheck : w.brain.check = none) (file : String) :
    w.handle (.checkIntegrity file) = ({ w with alive := false }, []) := by
  simp only [handle, halive, hcheck]
  rfl

theorem handle_foreign {r : Request} (halive : w.alive = true) (hforeign : r.isForeign = true) :
    w.handle r =
      (w, [Response.debug (w.moduleId ++ ": unsupported command") (.string r.command)]) := by
  cases r with
  | generate g =>
    simp only [handle, halive]
    rfl
  | detect batch =>
    simp only [handle, halive]
    rfl
  | _ => cases hforeign

theorem handle_initialise (halive : w.alive = true) (map : GenerationMap) :
    w.handle (.initializeBrain map) = w.initialise map := by
  simp only [handle, halive]
  rfl

theorem handle_batch (halive : w.alive = true) (g : GenerationRequest) :
    w.handle (.handleGeneration g) = w.makeBatch g := by
  simp only [handle, halive]
  rfl

end Handle

/-- What a brain answers to requests one after another. -/
def answerAll (w : BrainWorker) : List Request → List Response
  | [] => []
  | r :: rest => (w.handle r).2 ++ (w.handle r).1.answerAll rest

theorem answerAll_of_stopped {w : BrainWorker} (h : w.alive = false) (requests : List Request) :
    w.answerAll requests = [] := by
  induction requests with
  | nil => rfl
  | cons r rest ih =>
    have hhandle : w.handle r = (w, []) := by simp [handle, h]
    rw [answerAll, hhandle, ih]
    rfl

theorem startGenerator_eq_ok {w : BrainWorker} {slot : Nat} {module : String} {g : GeneratorWorker} :
    w.startGenerator slot module = .ok g ↔ w.brain.accepts module = true ∧
      ∃ generator, w.catalog.generator module slot = .ok generator ∧
        g = GeneratorWorker.start module generator := by
  rw [startGenerator]
  split
  · next haccepts =>
    cases hgenerator : w.catalog.generator module slot with
    | ok generator => simp [haccepts, eq_comm]
    | error u => simp
  · next hrefuses => simp [hrefuses]

/-- What is told about the positions of a map that get no generator. -/
def rejections (w : BrainWorker) (map : GenerationMap) : List Response :=
  map.filterMap fun (slot, module) =>
    match w.startGenerator slot module with
    | .ok _ => none
    | .error why => some (Response.debug (w.moduleId ++ ": generator rejected") (.string why))

/-- The generators that are started for a map. -/
def begun (w : BrainWorker) (map : GenerationMap) : List (Nat × GeneratorWorker) :=
  map.filterMap fun (slot, module) =>
    match w.startGenerator slot module with
    | .ok g => some (slot, g)
    | .error _ => none

theorem initialise_eq (w : BrainWorker) (map : GenerationMap) :
    w.initialise map = ({ w with slots := w.begun map }, w.rejections map ++
      [Response.result (.mark ((w.begun map).map fun s => (s.1, s.2.moduleId)))]) := by
  have hslots : (w.initialise map).1.slots = w.begun map := List.filterMap_map
  have hmessages : (w.initialise map).2 = w.rejections map ++
      [Response.result (.mark ((w.initialise map).1.slots.map fun s => (s.1, s.2.moduleId)))] :=
    congrArg (· ++ _) List.filterMap_map
  refine Prod.ext ?_ ?_
  · exact congrArg (fun slots => { w with slots := slots }) hslots
  · rw [hmessages, hslots]

/-- What is left for a brain to send when it has listened to its generators. -/
def concluding (w : BrainWorker) (rounds : List BrainRound) (task : BrainTask)
    (posted : List GenerateRequest) (batches : List GeneratedBatch) (queue : List Request) : List Response :=
  w.missing posted batches ++
    match w.brain.assemble rounds ⟨task, batches⟩ with
    | none => []
    | some tuples =>
      Response.result (.assembled tuples) ::
        { w with rounds := rounds ++ [⟨task, batches⟩], slots := [] : BrainWorker }.answerAll queue

theorem makeBatch_of_none {w : BrainWorker} {g : GenerationRequest}
    (hplan : w.brain.plan w.rounds ⟨w.slots.map (·.1), g.batchSize, g.previousBatch⟩ = none) :
    w.makeBatch g = ({ w with slots := [], alive := false }, []) := by
  rw [makeBatch]
  simp only [hplan]

theorem makeBatch_answerAll {w : BrainWorker} {g : GenerationRequest} {plan : List GenerateRequest}
    (hplan : w.brain.plan w.rounds ⟨w.slots.map (·.1), g.batchSize, g.previousBatch⟩ = some plan)
    (queue : List Request) :
    (w.makeBatch g).2 ++ (w.makeBatch g).1.answerAll queue =
      let posted := plan.filter fun p => w.slots.any fun s => s.1 == p.id
      (collect posted w.slots).1 ++ w.concluding w.rounds
        ⟨w.slots.map (·.1), g.batchSize, g.previousBatch⟩ posted (collect posted w.slots).2 queue := by
  rw [makeBatch]
  simp only [hplan, concluding]
  split <;> simp [*, answerAll_of_stopped]

end BrainWorker

end PageProbe
