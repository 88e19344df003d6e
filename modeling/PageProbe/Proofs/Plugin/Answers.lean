import PageProbe.Proofs.Plugin.Interleaving

namespace PageProbe

open Json (Value)

/-- A brain gets a generator for an entry of a map if it can drive it and the catalog knows it. -/
def Catalog.grants (c : Catalog) (brain : Brain) (entry : Nat × String) : Bool :=
  brain.accepts entry.2 && (c.generators.lookup entry.2).isSome

/-- What is told about an entry that is not granted. -/
def Brain.rejection (brain : Brain) (id : String) (entry : Nat × String) : Response :=
  Response.debug (id ++ ": generator rejected")
    (.string (if brain.accepts entry.2 then (UnknownModule.mk .generation entry.2).message
      else entry.2 ++ " is not compatible with " ++ id))

/-- The generators that are asked for values, in the order of their positions, and the first request to
    each of them. -/
def GenerationMap.asked (marked : GenerationMap) (posted : List GenerateRequest) :
    List (String × GenerateRequest) :=
  marked.filterMap fun (slot, module) => (posted.find? (·.id == slot)).map (module, ·)

/-- A generator tells that it is asked for values. -/
def GenerateRequest.announcement (r : GenerateRequest) (module : String) : Response :=
  Response.debug (module ++ ": generate")
    (Value.ofMembers [("id", Value.ofNat r.id), ("batchSize", Value.ofNat r.batchSize)])

/-- The values of a batch are those of a fresh generator. -/
def Catalog.Gives (c : Catalog) (ask : String × GenerateRequest) (batch : GeneratedBatch) : Prop :=
  batch.id = ask.2.id ∧ ∃ g, c.generator ask.1 ask.2.id = .ok g ∧
    g.generate [] ask.2.batchSize ask.2.args = some batch.batch

/-- What is told when there are fewer batches than requests. -/
def shortfall (id : String) (posted : List GenerateRequest) (batches : List GeneratedBatch) :
    List Response :=
  if batches.length < posted.length then
    [Response.debug (id ++ ": missing generator replies") (Value.ofMembers [
      ("expected", .array (posted.map fun r => Value.ofNat r.id)),
      ("received", Value.ofNat batches.length)])]
  else []

section Answers

variable (id : String) (brain : Brain) (c : Catalog)

/-- What a brain's worker sends for requests, when it is left with the last mark and some rounds. A batch
    uses the mark up. A brain that breaks down sends nothing more. -/
inductive Answers : GenerationMap → List BrainRound → List Request → List Response → Prop where
  | done {marked : GenerationMap} {rounds : List BrainRound} : Answers marked rounds [] []
  | check {marked : GenerationMap} {rounds : List BrainRound} {file : String} {check : Checks}
      {rest : List Request} {messages : List Response} (hcheck : brain.check = some check)
      (hrest : Answers marked rounds rest messages) :
      Answers marked rounds (.checkIntegrity file :: rest)
        (Response.result (.integrity ⟨file, check, ⟨brain.name, brain.description⟩⟩) :: messages)
  | initialise {marked map : GenerationMap} {rounds : List BrainRound} {rest : List Request}
      {messages : List Response} (hrest : Answers (map.filter (c.grants brain)) rounds rest messages) :
      Answers marked rounds (.initializeBrain map :: rest)
        ((map.filter (!c.grants brain ·)).map (brain.rejection id) ++
          Response.result (.mark (map.filter (c.grants brain))) :: messages)
  | batch {marked : GenerationMap} {rounds : List BrainRound} {g : GenerationRequest} {task : BrainTask}
      {plan posted : List GenerateRequest} {batches : List GeneratedBatch} {tuples : List (List Value)}
      {rest : List Request} {messages : List Response}
      (htask : task = ⟨marked.map (·.1), g.batchSize, g.previousBatch⟩)
      (hplan : brain.plan rounds task = some plan)
      (hposted : posted = plan.filter fun r => marked.any (·.1 == r.id))
      (hbatches : List.Forall₂ c.Gives (marked.asked posted) batches)
      (htuples : brain.assemble rounds ⟨task, batches⟩ = some tuples)
      (hrest : Answers [] (rounds ++ [⟨task, batches⟩]) rest messages) :
      Answers marked rounds (.handleGeneration g :: rest)
        ((marked.asked posted).map (fun ask => ask.2.announcement ask.1) ++ shortfall id posted batches ++
          Response.result (.assembled tuples) :: messages)
  | foreign {marked : GenerationMap} {rounds : List BrainRound} {r : Request} {rest : List Request}
      {messages : List Response} (hforeign : r.isForeign = true)
      (hrest : Answers marked rounds rest messages) :
      Answers marked rounds (r :: rest)
        (Response.debug (id ++ ": unsupported command") (.string r.command) :: messages)
  | brokenCheck {marked : GenerationMap} {rounds : List BrainRound} {file : String} {rest : List Request}
      (hcheck : brain.check = none) : Answers marked rounds (.checkIntegrity file :: rest) []
  | brokenPlan {marked : GenerationMap} {rounds : List BrainRound} {g : GenerationRequest}
      {rest : List Request}
      (hplan : brain.plan rounds ⟨marked.map (·.1), g.batchSize, g.previousBatch⟩ = none) :
      Answers marked rounds (.handleGeneration g :: rest) []
  | brokenAssembly {marked : GenerationMap} {rounds : List BrainRound} {g : GenerationRequest}
      {task : BrainTask} {plan posted : List GenerateRequest} {batches : List GeneratedBatch}
      {rest : List Request}
      (htask : task = ⟨marked.map (·.1), g.batchSize, g.previousBatch⟩)
      (hplan : brain.plan rounds task = some plan)
      (hposted : posted = plan.filter fun r => marked.any (·.1 == r.id))
      (hbatches : List.Forall₂ c.Gives (marked.asked posted) batches)
      (htuples : brain.assemble rounds ⟨task, batches⟩ = none) :
      Answers marked rounds (.handleGeneration g :: rest)
        ((marked.asked posted).map (fun ask => ask.2.announcement ask.1) ++ shortfall id posted batches)

end Answers

namespace BrainWorker

variable (id : String) {brain : Brain} {c : Catalog}

theorem startGenerator_of_grants {entry : Nat × String} (h : c.grants brain entry = true) :
    ∃ g, c.generator entry.2 entry.1 = .ok g ∧
      (start id brain c).startGenerator entry.1 entry.2 = .ok (GeneratorWorker.start entry.2 g) := by
  obtain ⟨haccepts, hknown⟩ := Bool.and_eq_true_iff.mp h
  obtain ⟨make, hmake⟩ := Option.isSome_iff_exists.mp hknown
  have hgenerator : c.generator entry.2 entry.1 = .ok (make (c.seedAt entry.1)) := by
    rw [Catalog.generator, hmake]
  exact ⟨_, hgenerator, startGenerator_eq_ok.mpr ⟨haccepts, _, hgenerator, rfl⟩⟩

theorem startGenerator_of_not_grants {entry : Nat × String} (h : c.grants brain entry = false) :
    ∃ why, (start id brain c).startGenerator entry.1 entry.2 = .error why ∧
      brain.rejection id entry = Response.debug (id ++ ": generator rejected") (.string why) := by
  rw [startGenerator, Brain.rejection, start]
  cases haccepts : brain.accepts entry.2 with
  | false => exact ⟨_, if_neg Bool.false_ne_true, rfl⟩
  | true =>
    have hunknown : c.generators.lookup entry.2 = none := by
      rw [Catalog.grants, haccepts] at h
      simpa using h
    have hgenerator : c.generator entry.2 entry.1 = .error ⟨.generation, entry.2⟩ := by
      rw [Catalog.generator, hunknown]
    rw [hgenerator]
    exact ⟨_, rfl, rfl⟩

/-- The generators that are started for a map are those that are granted. -/
theorem begun_filter (map : GenerationMap) :
    (start id brain c).begun (map.filter (c.grants brain)) = (start id brain c).begun map := by
  rw [begun, begun, List.filterMap_filter]
  refine List.filterMap_congr fun entry _ => ?_
  cases hgrants : c.grants brain entry with
  | true => rfl
  | false =>
    obtain ⟨why, hstart, _⟩ := startGenerator_of_not_grants id hgrants
    simp only [hstart]
    rfl

/-- Generators that are granted have the positions and names of their entries. -/
theorem begun_of_grants {marked : GenerationMap} (h : ∀ entry ∈ marked, c.grants brain entry = true) :
    ((start id brain c).begun marked).map (fun s => (s.1, s.2.moduleId)) = marked := by
  induction marked with
  | nil => rfl
  | cons entry rest ih =>
    obtain ⟨g, _, hstart⟩ := startGenerator_of_grants id (h entry List.mem_cons_self)
    have hrest := ih fun e he => h e (List.mem_cons_of_mem _ he)
    simp only [begun, List.filterMap_cons, hstart, List.map_cons] at hrest ⊢
    rw [hrest]
    rfl

theorem rejections_eq (map : GenerationMap) :
    (start id brain c).rejections map = (map.filter (!c.grants brain ·)).map (brain.rejection id) := by
  rw [rejections, ← List.filterMap_eq_map, List.filterMap_filter]
  refine List.filterMap_congr fun entry _ => ?_
  cases hgrants : c.grants brain entry with
  | true =>
    obtain ⟨g, _, hstart⟩ := startGenerator_of_grants id hgrants
    simp only [hstart]
    rfl
  | false =>
    obtain ⟨why, hstart, hwhy⟩ := startGenerator_of_not_grants id hgrants
    simp only [hstart]
    exact congrArg some hwhy.symm

/-- Fresh generators are heard in the order of their positions, each with the first request to it. -/
theorem collect_begun (hcatalog : c.NeverFails) (posted : List GenerateRequest) {marked : GenerationMap}
    (h : ∀ entry ∈ marked, c.grants brain entry = true) :
    (collect posted ((start id brain c).begun marked)).1 =
        (marked.asked posted).map (fun ask => ask.2.announcement ask.1) ∧
      List.Forall₂ c.Gives (marked.asked posted) (collect posted ((start id brain c).begun marked)).2 := by
  induction marked with
  | nil => exact ⟨rfl, .nil⟩
  | cons entry rest ih =>
    obtain ⟨slot, module⟩ := entry
    obtain ⟨g, hgenerator, hstart⟩ := startGenerator_of_grants id (h _ List.mem_cons_self)
    obtain ⟨hmessages, hbatches⟩ := ih fun e he => h e (List.mem_cons_of_mem _ he)
    have hbegun : (start id brain c).begun ((slot, module) :: rest) =
        (slot, GeneratorWorker.start module g) :: (start id brain c).begun rest := by
      simp only [begun, List.filterMap_cons, hstart]
    rw [hbegun, collect]
    cases hfind : posted.find? (·.id == slot) with
    | none =>
      have hasked : GenerationMap.asked ((slot, module) :: rest) posted = GenerationMap.asked rest posted := by
        simp only [GenerationMap.asked, List.filterMap_cons, hfind, Option.map_none]
      rw [hasked]
      exact ⟨hmessages, hbatches⟩
    | some r =>
      have hasked : GenerationMap.asked ((slot, module) :: rest) posted =
          (module, r) :: GenerationMap.asked rest posted := by
        simp only [GenerationMap.asked, List.filterMap_cons, hfind, Option.map_some]
      obtain rfl : r.id = slot := by simpa using List.find?_some hfind
      obtain ⟨values, hvalues⟩ := Option.isSome_iff_exists.mp
        (hcatalog _ _ _ hgenerator [] r.batchSize r.args)
      rw [hasked]
      simp only [GeneratorWorker.readBatch_handle, hvalues, hmessages]
      exact ⟨rfl, .cons ⟨rfl, g, hgenerator, hvalues⟩ hbatches⟩

end BrainWorker

/-- No request is the first to two positions. -/
theorem GenerationMap.length_asked_le {marked : GenerationMap} (h : (marked.map (·.1)).Nodup)
    (posted : List GenerateRequest) : (marked.asked posted).length ≤ posted.length := by
  have hnodup : ((marked.asked posted).map (·.2)).Nodup := by
    have hslots := List.pairwise_map.mp h
    refine List.pairwise_map.mpr (List.Pairwise.filterMap _ (fun e e' hne a ha a' ha' heq => ?_) hslots)
    obtain ⟨r, hr, rfl⟩ := Option.map_eq_some_iff.mp ha
    obtain ⟨r', hr', rfl⟩ := Option.map_eq_some_iff.mp ha'
    obtain rfl : r = r' := heq
    have hslot : r.id = e.1 := by simpa using List.find?_some hr
    have hslot' : r.id = e'.1 := by simpa using List.find?_some hr'
    exact hne (hslot.symm.trans hslot')
  have hposted : (marked.asked posted).map (·.2) ⊆ posted := by
    intro r hr
    obtain ⟨a, ha, rfl⟩ := List.mem_map.mp hr
    obtain ⟨e, _, he⟩ := List.mem_filterMap.mp ha
    obtain ⟨r', hfind, rfl⟩ := Option.map_eq_some_iff.mp he
    exact List.mem_of_find?_eq_some hfind
  rw [← List.length_map (·.2)]
  exact (hnodup.subperm hposted).length_le

theorem BrainWorker.missing_eq_shortfall (w : BrainWorker) {posted : List GenerateRequest}
    {batches : List GeneratedBatch} (h : batches.length ≤ posted.length) :
    w.missing posted batches = shortfall w.moduleId posted batches := by
  rw [missing, shortfall]
  by_cases heq : batches.length = posted.length
  · rw [if_pos heq, if_neg (by omega)]
  · rw [if_neg heq, if_pos (by omega)]

namespace BrainWorker

section Left

variable (id : String) (brain : Brain) (c : Catalog)

/-- The worker of a brain that is left with the last mark and some rounds. -/
def left (rounds : List BrainRound) (marked : GenerationMap) : BrainWorker :=
  { start id brain c with rounds := rounds, slots := (start id brain c).begun marked }

variable {brain c} (rounds : List BrainRound) {marked : GenerationMap}

theorem left_positions (hgrants : ∀ entry ∈ marked, c.grants brain entry = true) :
    (left id brain c rounds marked).slots.map (·.1) = marked.map (·.1) := by
  conv_rhs => rw [← begun_of_grants id hgrants, List.map_map]
  rfl

variable {id rounds}

theorem left_concluding (task : BrainTask) (posted : List GenerateRequest) (batches : List GeneratedBatch)
    (queue : List Request) :
    (left id brain c rounds marked).concluding (left id brain c rounds marked).rounds task posted batches queue =
      (left id brain c rounds marked).missing posted batches ++
        match brain.assemble rounds ⟨task, batches⟩ with
        | some tuples =>
          Response.result (.assembled tuples) ::
            (left id brain c (rounds ++ [⟨task, batches⟩]) []).answerAll queue
        | none => [] := by
  have hassemble : (left id brain c rounds marked).brain.assemble (left id brain c rounds marked).rounds =
      brain.assemble rounds := rfl
  rw [concluding, hassemble]
  cases brain.assemble rounds ⟨task, batches⟩ <;> rfl

/-- A map is answered with what is told about its entries, and what is granted of it is the next mark. -/
theorem answerAll_initialise (map : GenerationMap) (rest : List Request) :
    (left id brain c rounds marked).answerAll (.initializeBrain map :: rest) =
      (map.filter (!c.grants brain ·)).map (brain.rejection id) ++
        Response.result (.mark (map.filter (c.grants brain))) ::
          (left id brain c rounds (map.filter (c.grants brain))).answerAll rest := by
  have hfilter : ∀ e ∈ map.filter (c.grants brain), c.grants brain e = true :=
    fun e he => (List.mem_filter.mp he).2
  have hmark := begun_of_grants id hfilter
  rw [begun_filter] at hmark
  rw [answerAll, handle_initialise rfl, initialise_eq, ← rejections_eq, List.append_assoc, left, left,
    begun_filter, ← hmark]
  rfl

/-- A request for tuples is answered with what is heard of the generators and then the tuples, and uses up
    the mark. -/
theorem answerAll_batch (id : String) (rounds : List BrainRound) (hcatalog : c.NeverFails)
    (hmarked : marked.Ascending) (hgrants : ∀ entry ∈ marked, c.grants brain entry = true) {g : GenerationRequest}
    {plan : List GenerateRequest}
    (hplan : brain.plan rounds ⟨marked.map (·.1), g.batchSize, g.previousBatch⟩ = some plan)
    (rest : List Request) :
    let task : BrainTask := ⟨marked.map (·.1), g.batchSize, g.previousBatch⟩
    let posted := plan.filter fun r => marked.any (·.1 == r.id)
    ∃ batches, List.Forall₂ c.Gives (marked.asked posted) batches ∧
      (left id brain c rounds marked).answerAll (.handleGeneration g :: rest) =
        (marked.asked posted).map (fun ask => ask.2.announcement ask.1) ++ shortfall id posted batches ++
          match brain.assemble rounds ⟨task, batches⟩ with
          | some tuples =>
            Response.result (.assembled tuples) ::
              (left id brain c (rounds ++ [⟨task, batches⟩]) []).answerAll rest
          | none => [] := by
  intro task posted
  have hpositions := left_positions id rounds hgrants
  have hposted : (plan.filter fun p => (left id brain c rounds marked).slots.any fun s => s.1 == p.id) =
      posted := by
    refine List.filter_congr fun r _ => ?_
    have hany := congrArg (fun slots : List Nat => slots.any (· == r.id)) hpositions
    simpa only [List.any_map, Function.comp_def] using hany
  have hplan' : (left id brain c rounds marked).brain.plan (left id brain c rounds marked).rounds
      ⟨(left id brain c rounds marked).slots.map (·.1), g.batchSize, g.previousBatch⟩ = some plan := by
    rw [hpositions]
    exact hplan
  obtain ⟨hmessages, hbatches⟩ := collect_begun id hcatalog posted hgrants
  have hmade := makeBatch_answerAll hplan' rest
  rw [hposted, hpositions] at hmade
  dsimp only at hmade
  refine ⟨_, hbatches, ?_⟩
  rw [answerAll, handle_batch rfl, hmade, ← hmessages]
  have hlength : (collect posted ((start id brain c).begun marked)).2.length ≤ posted.length := by
    rw [← hbatches.length_eq]
    refine GenerationMap.length_asked_le (List.pairwise_map.mpr ?_) posted
    exact hmarked.imp fun hlt => Nat.ne_of_lt hlt
  have hmissing : (left id brain c rounds marked).missing posted
      (collect posted ((start id brain c).begun marked)).2 =
        shortfall id posted (collect posted ((start id brain c).begun marked)).2 :=
    missing_eq_shortfall _ hlength
  rw [left_concluding, List.append_assoc, ← hmissing]
  rfl

end Left

/-- What a brain's worker answers to requests one after another. -/
theorem answerAll_answers {id : String} {brain : Brain} {c : Catalog} (hcatalog : c.NeverFails)
    {requests : List Request} (hmaps : ∀ map, .initializeBrain map ∈ requests → map.Ascending)
    (rounds : List BrainRound) {marked : GenerationMap} (hmarked : marked.Ascending)
    (hgrants : ∀ entry ∈ marked, c.grants brain entry = true) :
    Answers id brain c marked rounds requests ((left id brain c rounds marked).answerAll requests) := by
  induction requests generalizing rounds marked with
  | nil => exact .done
  | cons r rest ih =>
    have hrest : ∀ map, .initializeBrain map ∈ rest → map.Ascending :=
      fun map hmap => hmaps map (List.mem_cons_of_mem _ hmap)
    have hstay := ih hrest rounds hmarked hgrants
    cases r with
    | checkIntegrity file =>
      rw [answerAll]
      cases hcheck : brain.check with
      | none =>
        rw [handle_brokenCheck rfl hcheck, answerAll_of_stopped rfl]
        exact .brokenCheck hcheck
      | some check =>
        rw [handle_check rfl hcheck]
        exact .check hcheck hstay
    | initializeBrain map =>
      rw [answerAll_initialise]
      refine .initialise (ih hrest rounds ?_ fun e he => (List.mem_filter.mp he).2)
      exact (hmaps map List.mem_cons_self).filter _
    | handleGeneration g =>
      cases hplan : brain.plan rounds ⟨marked.map (·.1), g.batchSize, g.previousBatch⟩ with
      | none =>
        have hplan' : (left id brain c rounds marked).brain.plan (left id brain c rounds marked).rounds
            ⟨(left id brain c rounds marked).slots.map (·.1), g.batchSize, g.previousBatch⟩ = none := by
          rw [left_positions id rounds hgrants]
          exact hplan
        rw [answerAll, handle_batch rfl, makeBatch_of_none hplan', answerAll_of_stopped rfl]
        exact .brokenPlan hplan
      | some plan =>
        obtain ⟨batches, hbatches, hanswers⟩ := answerAll_batch id rounds hcatalog hmarked hgrants hplan rest
        rw [hanswers]
        split
        · next tuples htuples =>
          exact .batch rfl hplan rfl hbatches htuples
            (ih hrest _ List.Pairwise.nil fun e he => absurd he List.not_mem_nil)
        · next htuples =>
          rw [List.append_nil]
          exact .brokenAssembly rfl hplan rfl hbatches htuples
    | generate g =>
      rw [answerAll, handle_foreign rfl rfl]
      exact .foreign rfl hstay
    | detect batch =>
      rw [answerAll, handle_foreign rfl rfl]
      exact .foreign rfl hstay

end BrainWorker

namespace Tasks

/-- Every schedule comes to its end, if it goes on as long as it can. -/
theorem exists_stuck (b : BrainWorker) (s : Tasks) :
    ∃ s', Relation.ReflTransGen (Step b) s s' ∧ ∀ s'', ¬ Step b s' s'' := by
  induction s using (step_wellFounded b).induction with
  | _ s ih =>
    by_cases hstuck : ∀ s', ¬ Step b s s'
    · exact ⟨s, .refl, hstuck⟩
    · obtain ⟨next, hnext⟩ := not_forall_not.mp hstuck
      obtain ⟨last, hlast, hend⟩ := ih next hnext
      exact ⟨last, .head hnext hlast, hend⟩

/-- No schedule can be told from what a brain sends. Under all of them it sends the answers to its requests
    in order, which are those of its worker: a part of them at any time, and all of them where nothing can
    go on, which every schedule comes to and none of them misses. Generators must not break down over a
    batch; brains may. Requests may be posted at any time and be of any kind, and brains may ask for what
    they like, also several times for one position or where there is no generator. -/
theorem sent_answers (id : String) (brain : Brain) {c : Catalog} {requests : List Request}
    (hcatalog : c.NeverFails) (hmaps : ∀ map, .initializeBrain map ∈ requests → map.Ascending) :
    let b := BrainWorker.start id brain c
    ∃ messages, Answers id brain c [] [] requests messages ∧ messages = b.answerAll requests ∧
      (WellFounded fun s' s => Step b s s') ∧
      ∀ s, Reachable b requests s → s.sent <+: messages ∧
        ((∀ s', ¬ Step b s s') → s.sent = messages) ∧
        ∃ s', Relation.ReflTransGen (Step b) s s' ∧ (∀ s'', ¬ Step b s' s'') ∧ s'.sent = messages := by
  intro b
  have hpositions (map : GenerationMap) (hmap : .initializeBrain map ∈ requests) : (map.map (·.1)).Nodup :=
    List.pairwise_map.mpr ((hmaps map hmap).imp fun hlt => Nat.ne_of_lt hlt)
  have hsent (s : Tasks) (hs : Reachable b requests s) :
      s.Sound ∧ s.sent ++ s.future b = b.answerAll requests :=
    hs.sound hcatalog rfl hpositions
  have hall (s : Tasks) (hs : Reachable b requests s) (hstuck : ∀ s', ¬ Step b s s') :
      s.sent = b.answerAll requests := by
    obtain ⟨hsound, hsame⟩ := hsent s hs
    rwa [future_of_stuck hsound hstuck, List.append_nil] at hsame
  refine ⟨b.answerAll requests, ?_, rfl, step_wellFounded b, fun s hs => ⟨⟨_, (hsent s hs).2⟩, hall s hs, ?_⟩⟩
  · refine BrainWorker.answerAll_answers hcatalog hmaps [] List.Pairwise.nil fun e he => ?_
    exact absurd he List.not_mem_nil
  · obtain ⟨last, hlast, hend⟩ := exists_stuck b s
    exact ⟨last, hlast, hend, hall last (hs.trans hlast) hend⟩

end Tasks

namespace Sample

/-- Gives one value, whatever it is asked for. -/
def steady : Generator where
  name := "steady"
  description := "one value"
  compatibleBrains := []
  check := fun _ => none
  generate := fun _ _ _ => some [.bool true]

def steadyCatalog : Catalog := ⟨0, [("steady", fun _ => steady)], [], []⟩

theorem steadyCatalog_neverFails : steadyCatalog.NeverFails := by
  intro id slot g hg
  by_cases hid : id = "steady"
  · subst hid
    cases hg
    exact fun _ _ _ => rfl
  · rw [Catalog.generator, steadyCatalog, List.lookup_cons, beq_eq_false_iff_ne.mpr hid] at hg
    cases hg

/-- A map with an entry that nobody knows, and two batches, for the second of which no mark is left. -/
def brainRequests : List Request := [
  .initializeBrain [(0, "steady"), (1, "nobody")], .handleGeneration ⟨5, none⟩, .handleGeneration ⟨5, none⟩]

end Sample

theorem Tasks.sent_answers_twice :
    ∃ s, Tasks.Reachable (BrainWorker.start "brain" Combinations.brain Sample.steadyCatalog)
      Sample.brainRequests s ∧ s.sent = [
        Response.debug "brain: generator rejected" (.string "unknown generation module: nobody"),
        Response.result (.mark [(0, "steady")]),
        Response.debug "steady: generate" (Value.ofMembers [("id", Value.ofNat 0), ("batchSize", Value.ofNat 5)]),
        Response.result (.assembled [[.bool true]]), Response.result (.assembled [[]])] := by
  have hmaps : ∀ map, .initializeBrain map ∈ Sample.brainRequests → map.Ascending := by
    intro map hmap
    have hmap : map = [(0, "steady"), (1, "nobody")] := by simpa [Sample.brainRequests] using hmap
    rw [hmap]
    exact List.pairwise_pair.mpr Nat.zero_lt_one
  obtain ⟨messages, _, rfl, _, hall⟩ := Tasks.sent_answers "brain" Combinations.brain
    Sample.steadyCatalog_neverFails hmaps
  obtain ⟨last, hlast, _, hsent⟩ := (hall _ .refl).2.2
  exact ⟨last, hlast, hsent.trans rfl⟩

end PageProbe
