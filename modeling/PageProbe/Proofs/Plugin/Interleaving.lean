import PageProbe.Proofs.Plugin.Settling

/-!
The brain listens to its generators one after another, and each of them will have sent the same when it is
heard. So everything that the brain will send can be told from where the tasks are, and no step changes
what it has sent and will send together. Where no task has anything to do, it has sent everything.
-/

namespace PageProbe

namespace Tasks

/-- What every generator will have sent that nobody has received. -/
def messages (slots : List (Nat × GeneratorTask)) : List (Nat × List Response) :=
  slots.map fun p => (p.1, p.2.settled.2)

/-- What the brain hears of generators that it has posted something to: what they tell, and their
    batches. -/
def gathered (posted : List GenerateRequest) :
    List (Nat × List Response) → List Response × List GeneratedBatch
  | [] => ([], [])
  | (slot, messages) :: rest =>
    if posted.any (·.id == slot) then
      ((BrainWorker.readBatch messages).1 ++ (gathered posted rest).1,
        (BrainWorker.readBatch messages).2.toList ++ (gathered posted rest).2)
    else gathered posted rest

/-- The generators with the rest of a plan posted to them. -/
def postRest (todo : List GenerateRequest) (slots : List (Nat × GeneratorTask)) :
    List (Nat × GeneratorTask) :=
  slots.map fun p => (p.1, p.2.postAll ((todo.filter (·.id == p.1)).map .generate))

/-- The requests of a plan that there are generators for. -/
def postable (slots : List (Nat × GeneratorTask)) (todo : List GenerateRequest) : List GenerateRequest :=
  todo.filter fun r => slots.any fun p => p.1 == r.id

variable (b : BrainWorker)

/-- The brain when it takes its next request. -/
def worker (s : Tasks) : BrainWorker :=
  { b with rounds := s.rounds, slots := s.slots.map fun p => (p.1, p.2.worker) }

/-- What the brain will send. -/
def future (s : Tasks) : List Response :=
  let queue := s.inbox ++ s.unposted
  match s.phase with
  | .waiting => (worker b s).answerAll queue
  | .starting todo started =>
    b.rejections todo ++
      Response.result (.mark (started ++ (b.begun todo).map fun p => (p.1, p.2.moduleId))) ::
        { worker b s with slots := (worker b s).slots ++ b.begun todo : BrainWorker }.answerAll queue
  | .posting task todo posted =>
    let posted := posted ++ postable s.slots todo
    let heard := gathered posted (messages (postRest todo s.slots))
    heard.1 ++ b.concluding s.rounds task posted heard.2 queue
  | .collecting task posted cursor batches =>
    let heard := gathered posted ((messages s.slots).drop cursor)
    heard.1 ++ b.concluding s.rounds task posted (batches ++ heard.2) queue
  | .stopped => []

/-- What a round of the brain comes to: what generators get, and the batches that the brain gets. -/
structure Round where
  task : BrainTask
  posted : List GenerateRequest
  batches : List GeneratedBatch

/-- The round that the brain is in. -/
def round? (s : Tasks) : Option Round :=
  match s.phase with
  | .posting task todo posted =>
    let posted := posted ++ postable s.slots todo
    some ⟨task, posted, (gathered posted (messages (postRest todo s.slots))).2⟩
  | .collecting task posted cursor batches =>
    some ⟨task, posted, batches ++ (gathered posted ((messages s.slots).drop cursor)).2⟩
  | _ => none

/-- What is left to be relayed in a round. -/
def unrelayed (s : Tasks) : List Response :=
  match s.phase with
  | .posting _ todo posted =>
    (gathered (posted ++ postable s.slots todo) (messages (postRest todo s.slots))).1
  | .collecting _ posted cursor _ => (gathered posted ((messages s.slots).drop cursor)).1
  | _ => []

/-- Positions have one generator each. Before anything is posted to them the generators are as they were
    started, and afterwards each of them that is listened to has a batch to send. -/
structure Sound (s : Tasks) : Prop where
  positions : (s.slots.map (·.1)).Nodup
  generators : ∀ p ∈ s.slots, p.2.Sound
  maps : ∀ map, .initializeBrain map ∈ s.inbox ++ s.unposted → (map.map (·.1)).Nodup
  phase : match s.phase with
    | .waiting => ∀ p ∈ s.slots, p.2 = .start p.2.worker
    | .starting todo _ =>
      (∀ p ∈ s.slots, p.2 = .start p.2.worker) ∧ (s.slots.map (·.1) ++ todo.map (·.1)).Nodup
    | .posting _ _ posted =>
      ∀ e ∈ messages s.slots, posted.any (·.id == e.1) = true → (BrainWorker.readBatch e.2).2.isSome = true
    | .collecting _ posted cursor _ =>
      ∀ e ∈ (messages s.slots).drop cursor, posted.any (·.id == e.1) = true →
        (BrainWorker.readBatch e.2).2.isSome = true
    | .stopped => True

section Posting

variable {r : GenerateRequest} {slots : List (Nat × GeneratorTask)}

/-- Posts a request to all generators of its position. -/
def post (r : GenerateRequest) (slots : List (Nat × GeneratorTask)) : List (Nat × GeneratorTask) :=
  slots.map fun p => if p.1 = r.id then (p.1, p.2.post (.generate r)) else p

/-- Where each position has one living generator it does not matter which is the first. -/
theorem postTo_eq (hnodup : (slots.map (·.1)).Nodup) (hsound : ∀ p ∈ slots, p.2.Sound) :
    postTo r slots = if slots.any (fun p => p.1 == r.id) then some (post r slots) else none := by
  induction slots with
  | nil => rfl
  | cons first rest ih =>
    obtain ⟨slot, g⟩ := first
    obtain ⟨hfirst, hrest⟩ := List.nodup_cons.mp hnodup
    rw [postTo, (hsound _ List.mem_cons_self).not_ended]
    by_cases heq : slot = r.id
    · subst heq
      have hothers : post r rest = rest := by
        rw [post]
        refine (List.map_congr_left fun p hp => if_neg fun heq => hfirst ?_).trans (List.map_id rest)
        exact List.mem_map.mpr ⟨p, hp, heq⟩
      rw [post] at hothers
      simp [post, hothers]
    · rw [if_neg heq, ih hrest fun p hp => hsound p (List.mem_cons_of_mem _ hp)]
      by_cases hany : rest.any (fun p => p.1 == r.id) = true
      · simp [post, heq, hany]
      · simp [heq, hany]

theorem postRest_post (r : GenerateRequest) (todo : List GenerateRequest)
    (slots : List (Nat × GeneratorTask)) : postRest todo (post r slots) = postRest (r :: todo) slots := by
  rw [postRest, post, List.map_map, postRest]
  refine List.map_congr_left fun p _ => ?_
  by_cases heq : p.1 = r.id
  · simp [heq, GeneratorTask.post_postAll]
  · simp [heq, Ne.symm heq]

theorem postRest_of_none (h : slots.any (fun p => p.1 == r.id) = false) (todo : List GenerateRequest) :
    postRest (r :: todo) slots = postRest todo slots := by
  refine List.map_congr_left fun p hp => ?_
  have hne : ¬ (r.id == p.1) = true := by
    rw [beq_iff_eq]
    exact fun heq => List.any_eq_false.mp h p hp (beq_iff_eq.mpr heq.symm)
  rw [List.filter_cons, if_neg hne]

theorem postRest_nil (slots : List (Nat × GeneratorTask)) : postRest [] slots = slots := by
  refine (List.map_congr_left fun p _ => ?_).trans (List.map_id slots)
  exact congrArg (p.1, ·) p.2.postAll_nil

theorem post_positions (r : GenerateRequest) (slots : List (Nat × GeneratorTask)) :
    (post r slots).map (·.1) = slots.map (·.1) := by
  rw [post, List.map_map]
  refine List.map_congr_left fun p _ => ?_
  dsimp only [Function.comp_apply]
  split <;> rfl

theorem any_positions (slots : List (Nat × GeneratorTask)) (id : Nat) :
    slots.any (fun p => p.1 == id) = (slots.map (·.1)).any (· == id) := by
  rw [List.any_map]
  rfl

theorem postable_post (r : GenerateRequest) (slots : List (Nat × GeneratorTask))
    (todo : List GenerateRequest) : postable (post r slots) todo = postable slots todo := by
  simp only [postable, any_positions, post_positions]

end Posting

section Future

variable {b} {s s' : Tasks}

/-- Workers that are given all requests to their positions are heard with their answers to the first. -/
theorem gathered_handleAll (posted : List GenerateRequest) {workers : List (Nat × GeneratorWorker)}
    (hsturdy : ∀ p ∈ workers, p.2.Sturdy) :
    gathered posted (workers.map fun p =>
      (p.1, (p.2.handleAll ((posted.filter (·.id == p.1)).map .generate)).2)) =
        BrainWorker.collect posted workers := by
  induction workers with
  | nil => rfl
  | cons first rest ih =>
    obtain ⟨slot, w⟩ := first
    have hrest := ih fun p hp => hsturdy p (List.mem_cons_of_mem _ hp)
    have hfirst : (posted.filter (·.id == slot)).head? = posted.find? (·.id == slot) := List.head?_filter
    have hasked : (posted.find? (·.id == slot)).isSome = posted.any (·.id == slot) := List.isSome_find?
    rw [List.map_cons, gathered, BrainWorker.collect, hrest, ← hasked, ← hfirst]
    cases posted.filter (·.id == slot) with
    | nil => rfl
    | cons r more =>
      obtain ⟨_, values, hanswer⟩ := (hsturdy _ List.mem_cons_self).handle_generate r
      have hbatch : (BrainWorker.readBatch (w.handle (.generate r)).2).2.isSome = true := by
        rw [hanswer]
        rfl
      rw [List.map_cons, GeneratorWorker.handleAll, BrainWorker.readBatch_append hbatch]
      rfl

/-- Generators that have just been started, and to which a plan is posted. -/
theorem gathered_postRest (hidle : ∀ p ∈ s.slots, p.2 = .start p.2.worker)
    (hsound : ∀ p ∈ s.slots, p.2.Sound) (plan : List GenerateRequest) :
    gathered (postable s.slots plan) (messages (postRest plan s.slots)) =
      BrainWorker.collect (postable s.slots plan) (worker b s).slots := by
  have hsturdy : ∀ p ∈ (worker b s).slots, p.2.Sturdy := by
    intro p hp
    obtain ⟨q, hq, rfl⟩ := List.mem_map.mp hp
    exact (hsound q hq).sturdy
  rw [← gathered_handleAll _ hsturdy, messages, postRest, worker, List.map_map, List.map_map]
  refine congrArg _ (List.map_congr_left fun p hp => ?_)
  have hfilter : (postable s.slots plan).filter (·.id == p.1) = plan.filter (·.id == p.1) := by
    rw [postable, List.filter_filter]
    refine List.filter_congr fun r _ => ?_
    cases hr : r.id == p.1 with
    | false => rfl
    | true =>
      refine List.any_eq_true.mpr ⟨p, hp, ?_⟩
      rw [beq_iff_eq] at hr ⊢
      exact hr.symm
  dsimp only [Function.comp_apply]
  rw [hfilter, GeneratorTask.settled_postAll, hidle p hp, GeneratorTask.settled_start]
  rfl

theorem future_waiting (h : s.phase = .waiting) :
    s.future b = (worker b s).answerAll (s.inbox ++ s.unposted) := by
  rw [future, h]

/-- A request comes to what the brain's worker answers it. -/
theorem take_future (halive : b.alive = true) (hphase : s.phase = .waiting)
    (hidle : ∀ p ∈ s.slots, p.2 = .start p.2.worker) (hsound : ∀ p ∈ s.slots, p.2.Sound) (r : Request) :
    (take b s r).sent ++ (take b s r).future b =
      s.sent ++ (((worker b s).handle r).2 ++ ((worker b s).handle r).1.answerAll (s.inbox ++ s.unposted)) := by
  have hworker : (worker b s).alive = true := halive
  have hsend (messages : List Response) : (s.send messages).sent ++ (s.send messages).future b =
      s.sent ++ (messages ++ (worker b s).answerAll (s.inbox ++ s.unposted)) := by
    rw [future_waiting (s := s.send messages) hphase]
    exact List.append_assoc _ _ _
  have hstop (w : BrainWorker) (hw : w.alive = false) (queue : List Request) :
      s.stop.sent ++ s.stop.future b = s.sent ++ ([] ++ w.answerAll queue) := by
    rw [BrainWorker.answerAll_of_stopped hw]
    rfl
  cases r with
  | checkIntegrity file =>
    rw [take]
    cases hcheck : b.brain.check with
    | none =>
      rw [BrainWorker.handle_brokenCheck hworker hcheck]
      exact hstop { worker b s with alive := false } rfl _
    | some check =>
      rw [BrainWorker.handle_check hworker hcheck]
      exact hsend _
  | initializeBrain map =>
    rw [BrainWorker.handle_initialise hworker, BrainWorker.initialise_eq, List.append_assoc]
    rfl
  | handleGeneration g =>
    have htask : (worker b s).slots.map (·.1) = s.slots.map (·.1) := by
      rw [worker, List.map_map]
      rfl
    have hposted (plan : List GenerateRequest) :
        (plan.filter fun p => (worker b s).slots.any fun s => s.1 == p.id) = postable s.slots plan := by
      simp only [worker, List.any_map]
      rfl
    have hplan : (worker b s).brain.plan (worker b s).rounds
        ⟨(worker b s).slots.map (·.1), g.batchSize, g.previousBatch⟩ =
          b.brain.plan s.rounds ⟨s.slots.map (·.1), g.batchSize, g.previousBatch⟩ := by
      rw [htask]
      rfl
    rw [take, BrainWorker.handle_batch hworker]
    cases hhere : b.brain.plan s.rounds ⟨s.slots.map (·.1), g.batchSize, g.previousBatch⟩ with
    | none =>
      rw [BrainWorker.makeBatch_of_none (hplan.trans hhere)]
      exact hstop { worker b s with slots := [], alive := false } rfl _
    | some plan =>
      rw [BrainWorker.makeBatch_answerAll (hplan.trans hhere), htask, hposted]
      dsimp only
      rw [← gathered_postRest hidle hsound]
      rfl
  | generate g =>
    rw [BrainWorker.handle_foreign hworker rfl]
    exact hsend _
  | detect batch =>
    rw [BrainWorker.handle_foreign hworker rfl]
    exact hsend _

theorem drop_messages {slots : List (Nat × GeneratorTask)} {cursor slot : Nat} {g : GeneratorTask}
    (h : slots[cursor]? = some (slot, g)) :
    (messages slots).drop cursor = (slot, g.settled.2) :: (messages slots).drop (cursor + 1) := by
  obtain ⟨hcursor, hslot⟩ := List.getElem?_eq_some_iff.mp h
  have hlength : cursor < (messages slots).length := by rwa [messages, List.length_map]
  rw [List.drop_eq_getElem_cons hlength]
  simp only [messages, List.getElem_map, hslot]

theorem mem_drop_messages {slots : List (Nat × GeneratorTask)} {cursor slot : Nat} {g : GeneratorTask}
    (h : slots[cursor]? = some (slot, g)) : (slot, g.settled.2) ∈ (messages slots).drop cursor := by
  rw [drop_messages h]
  exact List.mem_cons_self

/-- Receiving a message changes nothing but what is left of the generator that sent it. -/
theorem drop_messages_set {slots : List (Nat × GeneratorTask)} {cursor slot : Nat} {g : GeneratorTask}
    (h : slots[cursor]? = some (slot, g)) (g' : GeneratorTask) :
    (messages (slots.set cursor (slot, g'))).drop (cursor + 1) = (messages slots).drop (cursor + 1) ∧
      (messages (slots.set cursor (slot, g'))).drop cursor =
        (slot, g'.settled.2) :: (messages slots).drop (cursor + 1) := by
  have hcursor := (List.getElem?_eq_some_iff.mp h).1
  have hlater : (messages (slots.set cursor (slot, g'))).drop (cursor + 1) =
      (messages slots).drop (cursor + 1) := by
    rw [messages, List.map_set, List.drop_set_of_lt (Nat.lt_succ_self cursor)]
    rfl
  refine ⟨hlater, ?_⟩
  rw [drop_messages (List.getElem?_set_self hcursor), hlater]

theorem Sound.of_postTo_some (hs : s.Sound) {r : GenerateRequest} {slots : List (Nat × GeneratorTask)}
    (h : postTo r s.slots = some slots) :
    s.slots.any (fun p => p.1 == r.id) = true ∧ slots = post r s.slots := by
  rw [postTo_eq hs.positions hs.generators] at h
  obtain ⟨hany, hslots⟩ := Option.ite_none_right_eq_some.mp h
  exact ⟨hany, (Option.some.inj hslots).symm⟩

theorem Sound.of_postTo_none (hs : s.Sound) {r : GenerateRequest} (h : postTo r s.slots = none) :
    s.slots.any (fun p => p.1 == r.id) = false := by
  rw [postTo_eq hs.positions hs.generators] at h
  by_contra hany
  rw [if_pos (by simpa using hany)] at h
  cases h

theorem future_of_round {r : Round} (h : s.round? = some r) :
    s.future b =
      s.unrelayed ++ b.concluding s.rounds r.task r.posted r.batches (s.inbox ++ s.unposted) := by
  cases hphase : s.phase with
  | posting task todo posted =>
    simp only [round?, hphase, Option.some.injEq] at h
    subst h
    simp only [future, unrelayed, hphase]
  | collecting task posted cursor batches =>
    simp only [round?, hphase, Option.some.injEq] at h
    subst h
    simp only [future, unrelayed, hphase]
  | _ => simp [round?, hphase] at h

/-- A step after which a round goes on, and comes to the same. -/
structure Round.GoesOn (r : Round) (s s' : Tasks) : Prop where
  round : s'.round? = some r
  rounds : s'.rounds = s.rounds
  positions : s'.slots.map (·.1) = s.slots.map (·.1)

/-- A step after which the brain has relayed, and will relay, the same, and which takes no requests. -/
structure Relays (s s' : Tasks) : Prop where
  relayed : s'.sent ++ s'.unrelayed = s.sent ++ s.unrelayed
  inbox : s'.inbox = s.inbox
  unposted : s'.unposted = s.unposted

theorem hear_round {task : BrainTask} {posted : List GenerateRequest} {cursor : Nat}
    {batches : List GeneratedBatch} {slot : Nat} {g : GeneratorTask} {m : Response} {rest : List Response}
    {r : Round} (hphase : s.phase = .collecting task posted cursor batches)
    (hslot : s.slots[cursor]? = some (slot, g)) (hasked : posted.any (·.id == slot) = true)
    (hreplies : g.replies = m :: rest) (hround : s.round? = some r) :
    r.GoesOn s (hear { s with slots := s.slots.set cursor (slot, { g with replies := rest }) }
        task posted cursor batches m) ∧
      s.Relays (hear { s with slots := s.slots.set cursor (slot, { g with replies := rest }) }
        task posted cursor batches m) := by
  have hsettled := GeneratorTask.settled_of_replies hreplies
  obtain ⟨hlater, hhere⟩ := drop_messages_set hslot { g with replies := rest }
  have hpositions : (s.slots.set cursor (slot, { g with replies := rest })).map (·.1) =
      s.slots.map (·.1) := map_set_of_eq hslot rfl
  have hunrelayed : s.unrelayed = (BrainWorker.readBatch
      (m :: { g with replies := rest : GeneratorTask }.settled.2)).1 ++
        (gathered posted ((messages s.slots).drop (cursor + 1))).1 := by
    simp only [unrelayed, hphase, drop_messages hslot, hsettled, gathered, hasked, if_true]
  simp only [round?, hphase, drop_messages hslot, hsettled, gathered, hasked, if_true,
    Option.some.injEq] at hround
  subst hround
  obtain ⟨_ | _, body⟩ := m
  · cases body with
    | generated batch =>
      refine ⟨⟨?_, rfl, hpositions⟩, ?_, rfl, rfl⟩
      · simp only [Tasks.hear, round?, hlater, BrainWorker.readBatch, List.append_assoc,
          Option.toList_some]
      · rw [hunrelayed]
        simp only [Tasks.hear, unrelayed, hlater, BrainWorker.readBatch, List.nil_append]
    | _ =>
      refine ⟨⟨?_, rfl, hpositions⟩, ?_, rfl, rfl⟩
      · simp only [Tasks.hear, round?, hphase, hhere, gathered, hasked, if_true]
        rfl
      · rw [hunrelayed]
        simp only [Tasks.hear, unrelayed, hphase, hhere, gathered, hasked, if_true]
        rfl
  · refine ⟨⟨?_, rfl, hpositions⟩, ?_, rfl, rfl⟩
    · simp only [Tasks.hear, send, round?, hphase, hhere, gathered, hasked, if_true]
      rfl
    · rw [hunrelayed]
      simp only [Tasks.hear, send, unrelayed, hphase, hhere, gathered, hasked, if_true, List.append_assoc]
      rfl

/-- A step of the brain in a round either goes on with the round, or ends it. -/
theorem BrainStep.round_cases (hs : s.Sound) (h : BrainStep b s s') {r : Round} (hround : s.round? = some r) :
    r.GoesOn s s' ∧ s.Relays s' ∨
      s.unrelayed = [] ∧ s' = Tasks.conclude b s r.task r.posted r.batches := by
  cases h with
  | @post task q todo posted slots hphase hpost =>
    obtain ⟨hany, rfl⟩ := hs.of_postTo_some hpost
    have hpostable : postable s.slots (q :: todo) = q :: postable s.slots todo := List.filter_cons_of_pos hany
    simp only [round?, hphase, hpostable, Option.some.injEq] at hround
    subst hround
    refine .inl ⟨⟨?_, rfl, post_positions q s.slots⟩, ?_, rfl, rfl⟩
    · simp only [round?, postRest_post, postable_post, List.append_assoc, List.singleton_append]
    · simp only [unrelayed, hphase, hpostable, postRest_post, postable_post, List.append_assoc,
        List.singleton_append]
  | @skip task q todo posted hphase hpost =>
    have hnone := hs.of_postTo_none hpost
    have hpostable : postable s.slots (q :: todo) = postable s.slots todo :=
      List.filter_cons_of_neg (by simp [hnone])
    simp only [round?, hphase, hpostable, postRest_of_none hnone, Option.some.injEq] at hround
    subst hround
    refine .inl ⟨⟨rfl, rfl, rfl⟩, ?_, rfl, rfl⟩
    simp only [unrelayed, hphase, hpostable, postRest_of_none hnone]
  | listen hphase =>
    simp only [round?, hphase, postRest_nil, postable, List.filter_nil, List.append_nil,
      Option.some.injEq] at hround
    subst hround
    refine .inl ⟨⟨rfl, rfl, rfl⟩, ?_, rfl, rfl⟩
    simp only [unrelayed, hphase, postRest_nil, postable, List.filter_nil, List.append_nil, List.drop_zero]
  | @pass task posted cursor batches slot g hphase hslot hsilent =>
    have hasked : posted.any (·.id == slot) = false := by
      rcases hsilent with hasked | ⟨_, hended⟩
      · exact hasked
      · rw [(hs.generators _ (List.mem_of_getElem? hslot)).not_ended] at hended
        cases hended
    simp only [round?, hphase, drop_messages hslot, gathered, hasked, Bool.false_eq_true, if_false,
      Option.some.injEq] at hround
    subst hround
    refine .inl ⟨⟨rfl, rfl, rfl⟩, ?_, rfl, rfl⟩
    simp only [unrelayed, hphase, drop_messages hslot, gathered, hasked, Bool.false_eq_true, if_false]
  | hear hphase hslot hasked hreplies => exact .inl (hear_round hphase hslot hasked hreplies hround)
  | @conclude task posted cursor batches hphase hslot =>
    have hall : (messages s.slots).drop cursor = [] := by
      rw [messages, List.drop_eq_nil_iff, List.length_map]
      exact List.getElem?_eq_none_iff.mp hslot
    simp only [round?, hphase, hall, gathered, List.append_nil, Option.some.injEq] at hround
    subst hround
    exact .inr ⟨by simp only [unrelayed, hphase, hall, gathered], rfl⟩
  | _ hphase => simp [round?, hphase] at hround

theorem conclude_future (s : Tasks) (task : BrainTask) (posted : List GenerateRequest)
    (batches : List GeneratedBatch) :
    (Tasks.conclude b s task posted batches).sent ++ (Tasks.conclude b s task posted batches).future b =
      s.sent ++ b.concluding s.rounds task posted batches (s.inbox ++ s.unposted) := by
  rw [Tasks.conclude, BrainWorker.concluding]
  cases hassemble : b.brain.assemble s.rounds ⟨task, batches⟩ with
  | none => simp [send, release, future, hassemble]
  | some tuples => simp [send, release, future, hassemble, worker]

/-- No step of the brain changes what it has sent and will send together. -/
theorem BrainStep.future_eq (halive : b.alive = true) (hs : s.Sound) (h : BrainStep b s s') :
    s'.sent ++ s'.future b = s.sent ++ s.future b := by
  cases hround : s.round? with
  | some r =>
    rw [future_of_round hround]
    rcases h.round_cases hs hround with ⟨hgoes, hrelays⟩ | ⟨hunrelayed, rfl⟩
    · rw [future_of_round hgoes.round, hgoes.rounds, hrelays.inbox, hrelays.unposted, ← List.append_assoc,
        hrelays.relayed, List.append_assoc]
    · rw [hunrelayed, conclude_future, List.nil_append]
  | none =>
    have hphaseSound := hs.phase
    cases h with
    | @take r rest hphase hinbox =>
      rw [hphase] at hphaseSound
      rw [take_future (s := { s with inbox := rest }) halive hphase hphaseSound hs.generators,
        future_waiting hphase, hinbox]
      rfl
    | @start slot module todo started w hphase hstart =>
      obtain ⟨_, generator, _, rfl⟩ := BrainWorker.startGenerator_eq_ok.mp hstart
      have hrejections : b.rejections ((slot, module) :: todo) = b.rejections todo := by
        simp only [BrainWorker.rejections, List.filterMap_cons, hstart]
      have hbegun : b.begun ((slot, module) :: todo) =
          (slot, GeneratorWorker.start module generator) :: b.begun todo := by
        simp only [BrainWorker.begun, List.filterMap_cons, hstart]
      simp only [future, hphase, hrejections, hbegun, worker, List.map_cons, List.map_append,
        List.append_assoc]
      rfl
    | @reject slot module why todo started hphase hstart =>
      have hrejections : b.rejections ((slot, module) :: todo) =
          Response.debug (b.moduleId ++ ": generator rejected") (.string why) :: b.rejections todo := by
        simp only [BrainWorker.rejections, List.filterMap_cons, hstart]
      have hbegun : b.begun ((slot, module) :: todo) = b.begun todo := by
        simp only [BrainWorker.begun, List.filterMap_cons, hstart]
      simp only [future, send, hphase, hrejections, hbegun, worker, List.append_assoc]
      rfl
    | mark hphase =>
      simp only [future, send, hphase, worker, BrainWorker.rejections, BrainWorker.begun, List.filterMap_nil,
        List.map_nil, List.append_nil, List.append_assoc]
      rfl
    | _ hphase => simp [round?, hphase] at hround

end Future

section Soundness

variable {b} {s s' : Tasks}

/-- Nothing is asked of generators that are not there. -/
theorem sound_of_released (hslots : s.slots = [])
    (hmaps : ∀ map, .initializeBrain map ∈ s.inbox ++ s.unposted → (map.map (·.1)).Nodup)
    (hphase : ∀ todo started, s.phase = .starting todo started → (todo.map (·.1)).Nodup) : s.Sound where
  positions := by simp [hslots]
  generators := by simp [hslots]
  maps := hmaps
  phase := by
    cases h : s.phase with
    | starting todo started => simpa [hslots] using hphase todo started h
    | _ => simp [hslots, messages]

theorem take_sound (hs : s.Sound) {r : Request} {rest : List Request}
    (hinbox : s.inbox = r :: rest) : (take b { s with inbox := rest } r).Sound := by
  have hmaps : ∀ map, .initializeBrain map ∈ rest ++ s.unposted → (map.map (·.1)).Nodup := by
    intro map hmap
    refine hs.maps map ?_
    rw [hinbox]
    exact List.mem_cons_of_mem _ hmap
  have hkept (messages : List Response) : ({ s with inbox := rest : Tasks }.send messages).Sound :=
    ⟨hs.positions, hs.generators, hmaps, hs.phase⟩
  have hstopped : { s with inbox := rest : Tasks }.stop.Sound :=
    sound_of_released rfl hmaps fun _ _ h => by cases h
  cases r with
  | checkIntegrity file =>
    rw [take]
    cases b.brain.check with
    | none => exact hstopped
    | some check => exact hkept _
  | initializeBrain map =>
    refine sound_of_released rfl hmaps fun todo started h => ?_
    cases h
    refine hs.maps map ?_
    rw [hinbox]
    exact List.mem_cons_self
  | handleGeneration g =>
    rw [take]
    dsimp only
    split
    · exact ⟨hs.positions, hs.generators, hmaps, fun e _ h => absurd h Bool.false_ne_true⟩
    · exact hstopped
  | _ => exact hkept _

theorem post_messages (hsound : ∀ p ∈ s.slots, p.2.Sound) {posted : List GenerateRequest}
    {r : GenerateRequest} (hbatches : ∀ e ∈ messages s.slots, posted.any (·.id == e.1) = true →
      (BrainWorker.readBatch e.2).2.isSome = true) :
    ∀ e ∈ messages (post r s.slots), (posted ++ [r]).any (·.id == e.1) = true →
      (BrainWorker.readBatch e.2).2.isSome = true := by
  intro e he hasked
  obtain ⟨p', hp', rfl⟩ := List.mem_map.mp he
  obtain ⟨p, hp, rfl⟩ := List.mem_map.mp hp'
  by_cases heq : p.1 = r.id
  · rw [if_pos heq]
    exact BrainWorker.readBatch_post (hsound p hp) r
  · rw [if_neg heq] at hasked ⊢
    refine hbatches _ (List.mem_map.mpr ⟨p, hp, rfl⟩) ?_
    simpa [Ne.symm heq] using hasked

theorem post_sound (hsound : ∀ p ∈ s.slots, p.2.Sound) (r : GenerateRequest) :
    ∀ p ∈ post r s.slots, p.2.Sound := by
  intro p' hp'
  obtain ⟨p, hp, rfl⟩ := List.mem_map.mp hp'
  split
  · exact (hsound p hp).post r
  · exact hsound p hp

/-- One generator may be replaced by another sound one. -/
theorem set_sound {i slot : Nat} {g g' : GeneratorTask} (hs : s.Sound) (hslot : s.slots[i]? = some (slot, g))
    (hg : g'.Sound) : ((s.slots.set i (slot, g')).map (·.1)).Nodup ∧
      ∀ p ∈ s.slots.set i (slot, g'), p.2.Sound := by
  have hpositions : (s.slots.set i (slot, g')).map (·.1) = s.slots.map (·.1) := map_set_of_eq hslot rfl
  refine ⟨?_, fun p hp => ?_⟩
  · rw [hpositions]
    exact hs.positions
  · rcases List.mem_or_eq_of_mem_set hp with hp | rfl
    · exact hs.generators p hp
    · exact hg

theorem hear_sound (hs : s.Sound) {task : BrainTask} {posted : List GenerateRequest} {cursor : Nat}
    {batches : List GeneratedBatch} {slot : Nat} {g : GeneratorTask} {m : Response} {rest : List Response}
    (hphase : s.phase = .collecting task posted cursor batches) (hslot : s.slots[cursor]? = some (slot, g))
    (hasked : posted.any (·.id == slot) = true) (hreplies : g.replies = m :: rest) :
    (hear { s with slots := s.slots.set cursor (slot, { g with replies := rest }) }
      task posted cursor batches m).Sound := by
  have hg := hs.generators _ (List.mem_of_getElem? hslot)
  have hafter : { g with replies := rest : GeneratorTask }.Sound := ⟨hg.sturdy, hg.asked⟩
  obtain ⟨hpositions, hgenerators⟩ := set_sound hs hslot hafter
  have hphaseSound := hs.phase
  rw [hphase] at hphaseSound
  obtain ⟨hlater, hhere⟩ := drop_messages_set hslot { g with replies := rest }
  have hbatch : (BrainWorker.readBatch (m :: { g with replies := rest : GeneratorTask }.settled.2)).2.isSome =
      true := by
    have hfirst := hphaseSound _ (mem_drop_messages hslot) hasked
    rwa [GeneratorTask.settled_of_replies hreplies] at hfirst
  have hstill (hsame : (BrainWorker.readBatch (m :: { g with replies := rest : GeneratorTask }.settled.2)).2 =
      (BrainWorker.readBatch { g with replies := rest : GeneratorTask }.settled.2).2) :
      ∀ e ∈ (messages (s.slots.set cursor (slot, { g with replies := rest }))).drop cursor,
        posted.any (·.id == e.1) = true → (BrainWorker.readBatch e.2).2.isSome = true := by
    intro e he hposted
    rw [hhere] at he
    rcases List.mem_cons.mp he with rfl | he
    · rwa [hsame] at hbatch
    · exact hphaseSound e (List.drop_subset_drop_left _ (Nat.le_succ _) he) hposted
  obtain ⟨_ | _, body⟩ := m
  · cases body with
    | generated batch =>
      refine ⟨hpositions, hgenerators, hs.maps, fun e he => hphaseSound e ?_⟩
      exact List.drop_subset_drop_left _ (Nat.le_succ _) (hlater ▸ he)
    | _ =>
      refine ⟨hpositions, hgenerators, hs.maps, ?_⟩
      simpa only [hear, hphase] using hstill rfl
  · refine ⟨hpositions, hgenerators, hs.maps, ?_⟩
    simpa only [hear, send, hphase] using hstill rfl

theorem BrainStep.sound (hcatalog : b.catalog.NeverFails) (hs : s.Sound) (h : BrainStep b s s') :
    s'.Sound := by
  have hphaseSound := hs.phase
  cases h with
  | take _ hinbox => exact take_sound hs hinbox
  | @start slot module todo started w hphase hstart =>
    obtain ⟨_, generator, hgenerator, rfl⟩ := BrainWorker.startGenerator_eq_ok.mp hstart
    rw [hphase] at hphaseSound
    obtain ⟨hidle, hnodup⟩ := hphaseSound
    have hpositions : ((s.slots ++ [(slot, GeneratorTask.start (GeneratorWorker.start module generator))]).map
        (·.1) ++ todo.map (·.1)).Nodup := by
      simpa using hnodup
    have hnew (p : Nat × GeneratorTask) (hp : p ∈ s.slots ++
        [(slot, GeneratorTask.start (GeneratorWorker.start module generator))]) :
        p.2.Sound ∧ p.2 = .start p.2.worker := by
      rcases List.mem_append.mp hp with hp | hp
      · exact ⟨hs.generators p hp, hidle p hp⟩
      · obtain rfl := List.mem_singleton.mp hp
        exact ⟨⟨⟨rfl, hcatalog _ _ _ hgenerator⟩, fun _ hr => absurd hr List.not_mem_nil⟩, rfl⟩
    exact ⟨(List.nodup_append.mp hpositions).1, fun p hp => (hnew p hp).1, hs.maps,
      fun p hp => (hnew p hp).2, hpositions⟩
  | @reject slot module why todo started hphase hstart =>
    rw [hphase] at hphaseSound
    refine ⟨hs.positions, hs.generators, hs.maps, hphaseSound.1, ?_⟩
    exact hphaseSound.2.sublist (List.Sublist.append_left (List.sublist_cons_self _ _) _)
  | mark hphase =>
    rw [hphase] at hphaseSound
    exact ⟨hs.positions, hs.generators, hs.maps, hphaseSound.1⟩
  | post hphase hpost =>
    obtain ⟨_, rfl⟩ := hs.of_postTo_some hpost
    rw [hphase] at hphaseSound
    refine ⟨?_, post_sound hs.generators _, hs.maps, post_messages hs.generators hphaseSound⟩
    rw [post_positions]
    exact hs.positions
  | skip hphase hpost =>
    rw [hphase] at hphaseSound
    exact ⟨hs.positions, hs.generators, hs.maps, hphaseSound⟩
  | listen hphase =>
    rw [hphase] at hphaseSound
    exact ⟨hs.positions, hs.generators, hs.maps, hphaseSound⟩
  | pass hphase hslot hsilent =>
    rw [hphase] at hphaseSound
    refine ⟨hs.positions, hs.generators, hs.maps, fun e he => hphaseSound e ?_⟩
    exact List.drop_subset_drop_left _ (Nat.le_succ _) he
  | hear hphase hslot hasked hreplies => exact hear_sound hs hphase hslot hasked hreplies
  | conclude =>
    rw [Tasks.conclude]
    split
    · exact sound_of_released rfl hs.maps fun _ _ h => by cases h
    · exact sound_of_released rfl hs.maps fun _ _ h => by cases h

/-- A generator that goes on changes nothing of what the brain will hear of it. -/
theorem generator_round {i slot : Nat} {g g' : GeneratorTask} (hslot : s.slots[i]? = some (slot, g))
    (hstep : g.Step g') :
    { s with slots := s.slots.set i (slot, g') }.round? = s.round? ∧
      { s with slots := s.slots.set i (slot, g') }.unrelayed = s.unrelayed := by
  have hmessages : messages (s.slots.set i (slot, g')) = messages s.slots :=
    map_set_of_eq hslot (by rw [hstep.settled_eq])
  have hrest (todo : List GenerateRequest) :
      messages (postRest todo (s.slots.set i (slot, g'))) = messages (postRest todo s.slots) := by
    rw [messages, messages, postRest, postRest, List.map_map, List.map_map]
    refine map_set_of_eq hslot ?_
    simp only [Function.comp_apply, GeneratorTask.settled_postAll, hstep.settled_eq]
  have hpostable (todo : List GenerateRequest) :
      postable (s.slots.set i (slot, g')) todo = postable s.slots todo := by
    have hsame : (s.slots.set i (slot, g')).map (·.1) = s.slots.map (·.1) := map_set_of_eq hslot rfl
    simp only [postable, any_positions, hsame]
  simp only [round?, unrelayed, hmessages, hrest, hpostable, and_self]

/-- Outside of rounds generators have nothing to do. -/
theorem Sound.stopped_of_generator (hs : s.Sound) (hround : s.round? = none) {i slot : Nat}
    {g g' : GeneratorTask} (hslot : s.slots[i]? = some (slot, g)) (hstep : g.Step g') :
    s.phase = .stopped := by
  have hphaseSound := hs.phase
  have hbusy (hidle : ∀ p ∈ s.slots, p.2 = .start p.2.worker) : False := by
    rw [show g = .start g.worker from hidle _ (List.mem_of_getElem? hslot)] at hstep
    exact GeneratorTask.not_step_start _ hstep
  cases hphase : s.phase with
  | waiting =>
    rw [hphase] at hphaseSound
    exact (hbusy hphaseSound).elim
  | starting todo started =>
    rw [hphase] at hphaseSound
    exact (hbusy hphaseSound.1).elim
  | stopped => rfl
  | _ => simp [round?, hphase] at hround

/-- A generator that answers a request changes nothing of what the brain will send. -/
theorem generator_sound (hs : s.Sound) {i slot : Nat} {g g' : GeneratorTask}
    (hslot : s.slots[i]? = some (slot, g)) (hstep : g.Step g') :
    { s with slots := s.slots.set i (slot, g') }.Sound ∧
      s.sent ++ { s with slots := s.slots.set i (slot, g') }.future b = s.sent ++ s.future b := by
  have hg := hs.generators _ (List.mem_of_getElem? hslot)
  obtain ⟨hpositions, hgenerators⟩ := set_sound hs hslot (hg.step hstep)
  have hmessages : messages (s.slots.set i (slot, g')) = messages s.slots :=
    map_set_of_eq hslot (by rw [hstep.settled_eq])
  obtain ⟨hround, hunrelayed⟩ := generator_round hslot hstep
  cases h : s.round? with
  | some r =>
    have hphaseSound := hs.phase
    refine ⟨⟨hpositions, hgenerators, hs.maps, ?_⟩, ?_⟩
    · cases hphase : s.phase with
      | posting | collecting => simpa only [hphase, hmessages] using hphaseSound
      | _ => simp [round?, hphase] at h
    · rw [future_of_round h, future_of_round (hround.trans h), hunrelayed]
  | none =>
    have hphase := hs.stopped_of_generator h hslot hstep
    refine ⟨⟨hpositions, hgenerators, hs.maps, ?_⟩, ?_⟩
    · simp only [hphase]
    · simp only [future, hphase]

/-- The tasks stay sound, and nothing changes what the brain has sent and will send together. -/
theorem Step.sound (hcatalog : b.catalog.NeverFails) (halive : b.alive = true) (hs : s.Sound)
    (h : Step b s s') : s'.Sound ∧ s'.sent ++ s'.future b = s.sent ++ s.future b := by
  cases h with
  | brain h => exact ⟨h.sound hcatalog hs, h.future_eq halive hs⟩
  | generator hslot hstep => exact generator_sound hs hslot hstep
  | adrift => exact ⟨⟨hs.positions, hs.generators, hs.maps, hs.phase⟩, rfl⟩
  | gone => exact ⟨⟨hs.positions, hs.generators, hs.maps, hs.phase⟩, rfl⟩
  | @request r rest hunposted =>
    have hqueue : s.inbox ++ [r] ++ rest = s.inbox ++ s.unposted := by
      rw [hunposted, List.append_assoc]
      rfl
    refine ⟨⟨hs.positions, hs.generators, ?_, hs.phase⟩, ?_⟩
    · dsimp only
      rw [hqueue]
      exact hs.maps
    · simp only [future, worker, hqueue]

/-- In a round there is always something to do. -/
theorem Sound.exists_step_of_round (hs : s.Sound) {r : Round} (hround : s.round? = some r) :
    ∃ s', Step b s s' := by
  have hphaseSound := hs.phase
  cases hphase : s.phase with
  | posting task todo posted =>
    cases todo with
    | nil => exact ⟨_, .brain (.listen hphase)⟩
    | cons r todo =>
      cases hpost : postTo r s.slots with
      | none => exact ⟨_, .brain (.skip hphase hpost)⟩
      | some slots => exact ⟨_, .brain (.post hphase hpost)⟩
  | collecting task posted cursor batches =>
    rw [hphase] at hphaseSound
    cases hslot : s.slots[cursor]? with
    | none => exact ⟨_, .brain (.conclude hphase hslot)⟩
    | some p =>
      obtain ⟨slot, g⟩ := p
      cases hasked : posted.any (·.id == slot) with
      | false => exact ⟨_, .brain (.pass hphase hslot (.inl hasked))⟩
      | true =>
        -- the batch that the brain waits for is still to be received
        have hsome : g.settled.2 ≠ [] := by
          intro hnone
          have hbatch := hphaseSound _ (mem_drop_messages hslot) hasked
          rw [hnone] at hbatch
          cases hbatch
        have hg := hs.generators _ (List.mem_of_getElem? hslot)
        rcases hg.step_or_replies hsome with hreplies | ⟨g', hstep⟩
        · obtain ⟨m, rest, hreplies⟩ := List.exists_cons_of_ne_nil hreplies
          exact ⟨_, .brain (.hear hphase hslot hasked hreplies)⟩
        · exact ⟨_, .generator hslot hstep⟩
  | _ => simp [round?, hphase] at hround

/-- Where no task has anything to do, the brain has nothing left to send. -/
theorem future_of_stuck (hs : s.Sound) (hstuck : ∀ s', ¬ Step b s s') : s.future b = [] := by
  cases hround : s.round? with
  | some r =>
    obtain ⟨s', hstep⟩ := hs.exists_step_of_round hround
    exact absurd hstep (hstuck s')
  | none =>
    cases hphase : s.phase with
    | waiting =>
      have hunposted : s.unposted = [] := by
        cases hunposted : s.unposted with
        | nil => rfl
        | cons r rest => exact absurd (.request hunposted) (hstuck _)
      have hinbox : s.inbox = [] := by
        cases hinbox : s.inbox with
        | nil => rfl
        | cons r rest => exact absurd (.brain (.take hphase hinbox)) (hstuck _)
      rw [future_waiting hphase, hinbox, hunposted]
      rfl
    | starting todo started =>
      cases todo with
      | nil => exact absurd (.brain (.mark hphase)) (hstuck _)
      | cons entry todo =>
        cases hstart : b.startGenerator entry.1 entry.2 with
        | ok w => exact absurd (.brain (.start hphase hstart)) (hstuck _)
        | error why => exact absurd (.brain (.reject hphase hstart)) (hstuck _)
    | stopped => rw [future, hphase]
    | _ => simp [round?, hphase] at hround

theorem start_sound {requests : List Request}
    (hmaps : ∀ map, .initializeBrain map ∈ requests → (map.map (·.1)).Nodup) : (start requests).Sound :=
  sound_of_released rfl hmaps fun _ _ h => by cases h

/-- Whatever the tasks come to, the brain has sent and will send what its worker answers. -/
theorem Reachable.sound {requests : List Request} (hcatalog : b.catalog.NeverFails) (halive : b.alive = true)
    (hmaps : ∀ map, .initializeBrain map ∈ requests → (map.map (·.1)).Nodup)
    (h : Reachable b requests s) :
    s.Sound ∧
      s.sent ++ s.future b = { b with rounds := [], slots := [] : BrainWorker }.answerAll requests := by
  induction h with
  | refl => exact ⟨start_sound hmaps, rfl⟩
  | tail _ hstep ih =>
    obtain ⟨hsound, hsame⟩ := hstep.sound hcatalog halive ih.1
    exact ⟨hsound, hsame.trans ih.2⟩

end Soundness
end Tasks
end PageProbe
