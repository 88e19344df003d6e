import PageProbe.Proofs.Injection.Window

namespace PageProbe

open Text (Bytes)
open Insertion

/-- What puts something else in place of the batch or of the target. -/
def InjectorEvent.replaces : InjectorEvent → Bool
  | select _ _ _ => true
  | clear => true
  | load _ => true
  | _ => false

namespace Insertion

/-- A pass keeps every byte of the body, in order. -/
theorem sublist_weaveFrom (xs : List Insertion) (offset : Nat) (body : Bytes) :
    body.Sublist (weaveFrom xs offset body) := by
  induction body generalizing offset with
  | nil => exact List.nil_sublist _
  | cons b bs ih =>
    have hhere : [b].Sublist (if b = 0x3B then b :: textsAt xs offset else textsAt xs offset ++ [b]) := by
      split
      · exact List.singleton_sublist.mpr List.mem_cons_self
      · exact List.sublist_append_right _ _
    exact hhere.append (ih (offset + 1))

end Insertion

namespace Injector

/-- The tuple that is dropped when its execution is settled. -/
def dropped (i : Injector) : InjectorEvent → Option Tuple
  | .settle uuid => i.queue.head?.filter (·.uuid = uuid)
  | _ => none

/-- The tuple that leaves the queue: one that is injected, or one that is dropped. -/
def removed (i : Injector) (e : InjectorEvent) : Option Tuple := (i.taken e).or (i.dropped e)

/-- The tuples that leave the queue in the course of some events. -/
def removedDuring (i : Injector) : List InjectorEvent → List Tuple
  | [] => []
  | e :: rest => (i.removed e).toList ++ (i.step e).removedDuring rest

/-- The tuple whose injection is under way after an event, if one was before it. It is over as soon as the
    injector is armed again. -/
def injecting (i : Injector) (current : Option Tuple) : InjectorEvent → Option Tuple
  | .activate => none
  | e => (i.taken e).or current

theorem injecting_of_not_activate {i : Injector} {current : Option Tuple} {e : InjectorEvent}
    (h : e.isActivate = false) : i.injecting current e = (i.taken e).or current := by
  cases e with
  | activate => cases h
  | _ => rfl

/-- The tuple whose injection is under way after some events. -/
def underWay (i : Injector) (current : Option Tuple) : List InjectorEvent → Option Tuple
  | [] => current
  | e :: rest => (i.step e).underWay (i.injecting current e) rest

theorem taken_of_shorter {i : Injector} {piece : Chunk} {t : Tuple} {rest : List Tuple}
    (hqueue : i.queue = t :: rest) (hnext : (i.intercept piece).1.queue = rest) :
    i.taken (.fetch piece) = some t := by
  simp [taken, hnext, hqueue]

theorem taken_of_same {i : Injector} {piece : Chunk} (hsame : (i.intercept piece).1.queue = i.queue) :
    i.taken (.fetch piece) = none := by
  simp [taken, hsame]

/-- What leaves the queue is what was at its front. -/
theorem removed_append_queue (i : Injector) {e : InjectorEvent} (he : e.replaces = false) :
    (i.removed e).toList ++ (i.step e).queue = i.queue := by
  cases e with
  | select => cases he
  | clear => cases he
  | load => cases he
  | activate => rfl
  | deactivate => rfl
  | settle uuid =>
    have hremoved : i.removed (.settle uuid) = i.queue.head?.filter (·.uuid = uuid) := rfl
    rw [hremoved, step, settle]
    cases hqueue : i.queue with
    | nil => exact hqueue
    | cons t rest =>
      by_cases huuid : t.uuid = uuid
      · simp [huuid, Option.filter]
      · simp [huuid, hqueue, Option.filter]
  | fetch piece =>
    have hremoved : i.removed (.fetch piece) = i.taken (.fetch piece) := Option.or_none
    rw [hremoved, step]
    rcases i.intercept_cases piece with ⟨hsame, _⟩ | ⟨t, rest, _, hqueue, hnext, _⟩
    · rw [taken_of_same hsame, hsame]
      rfl
    · rw [taken_of_shorter hqueue hnext, hnext, hqueue]
      rfl

theorem removedDuring_append_queue (i : Injector) {events : List InjectorEvent}
    (hevents : ∀ e ∈ events, e.replaces = false) :
    i.removedDuring events ++ (i.run events).queue = i.queue := by
  induction events generalizing i with
  | nil => rfl
  | cons e rest ih =>
    have hfirst := i.removed_append_queue (hevents e List.mem_cons_self)
    have hrest := ih (i.step e) fun f hf => hevents f (List.mem_cons_of_mem e hf)
    rw [removedDuring, run_cons, List.append_assoc, hrest, hfirst]

theorem takenDuring_sublist_removedDuring (i : Injector) (events : List InjectorEvent) :
    (i.takenDuring events).Sublist (i.removedDuring events) := by
  induction events generalizing i with
  | nil => exact List.Sublist.refl _
  | cons e rest ih =>
    have hfirst : (i.taken e).toList.Sublist (i.removed e).toList := by
      rw [removed]
      cases i.taken e with
      | none => exact List.nil_sublist _
      | some t => exact List.Sublist.refl _
    exact hfirst.append (ih (i.step e))

theorem taken_active {i : Injector} {e : InjectorEvent} {t : Tuple} (h : i.taken e = some t) :
    (i.step e).active = false := by
  cases e with
  | fetch piece =>
    rcases i.intercept_cases piece with ⟨hsame, _⟩ | ⟨_, _, _, _, _, hdone⟩
    · rw [taken_of_same hsame] at h
      cases h
    · exact hdone
  | _ => cases h

/-- An injection disarms the injector, and so it is the only one until the injector is armed again. -/
theorem length_takenDuring_le_one (i : Injector) {events : List InjectorEvent}
    (hevents : ∀ e ∈ events, e.isActivate = false) : (i.takenDuring events).length ≤ 1 := by
  induction events generalizing i with
  | nil => exact Nat.zero_le _
  | cons e rest ih =>
    have hlater (f : InjectorEvent) (hf : f ∈ rest) := hevents f (List.mem_cons_of_mem e hf)
    rw [takenDuring]
    cases htaken : i.taken e with
    | none => exact ih (i.step e) hlater
    | some t =>
      rw [takenDuring_of_inactive (taken_active htaken) hlater]
      exact Nat.le_refl 1

/-- What has nothing to do with the target's script leaves no trace. -/
theorem intercept_of_foreign {i : Injector} {piece : Chunk}
    (hforeign : ContentType.isScript piece.contentType = false ∨
      ∀ target, i.target = some target → scriptName piece.uri ≠ target.script) :
    i.intercept piece = (i, none) := by
  cases htarget : i.target with
  | none => simp only [intercept, htarget]
  | some target =>
    have hconcerns : target.concerns piece = false := by
      rcases hforeign with hkind | hname
      · simp [InjectionTarget.concerns, hkind]
      · simp [InjectionTarget.concerns, hname target htarget]
    simp [intercept, htarget, hconcerns]

/-- The piece that takes a tuple takes its insertions up, and any other piece takes nothing up. -/
theorem arm_taken_cases {i : Injector} {target : InjectionTarget} {piece : Chunk}
    (htarget : i.target = some target) (hconcerns : target.concerns piece = true) :
    (i.taken (.fetch piece) = none ∧ i.arm target piece = i) ∨
      ∃ t, i.taken (.fetch piece) = some t ∧ (i.arm target piece).target = some target ∧
        (i.arm target piece).carried = target.insertions t := by
  have hqueue : (i.intercept piece).1.queue = (i.arm target piece).queue := by
    rw [(intercept_of_concerns htarget hconcerns).1]
    rfl
  rcases i.arm_cases target piece with harm | ⟨t, rest, -, hwaiting, -, harm⟩
  · exact .inl ⟨taken_of_same (hqueue.trans (congrArg Injector.queue harm)), harm⟩
  · rw [harm] at hqueue ⊢
    exact .inr ⟨t, taken_of_shorter hwaiting hqueue, htarget, rfl⟩

/-- What an injector carries along belongs to the tuple whose injection is under way. -/
def CarriesFor (i : Injector) (current : Option Tuple) : Prop :=
  i.carried = [] ∨ ∃ target t, i.target = some target ∧ current = some t ∧
    i.carried.Sublist (target.insertions t)

theorem CarriesFor.arm {i : Injector} {current : Option Tuple} (h : i.CarriesFor current)
    {target : InjectionTarget} {piece : Chunk} (htarget : i.target = some target)
    (hconcerns : target.concerns piece = true) :
    (i.arm target piece).CarriesFor ((i.taken (.fetch piece)).or current) := by
  rcases arm_taken_cases htarget hconcerns with ⟨hnone, harm⟩ | ⟨t, hsome, hsame, hcarried⟩
  · rw [harm, hnone]
    exact h
  · rw [hsome]
    exact .inr ⟨target, t, hsame, rfl, hcarried ▸ List.Sublist.refl _⟩

theorem CarriesFor.pass {i : Injector} {current : Option Tuple} (h : i.CarriesFor current)
    (piece : Chunk) : (i.pass piece).CarriesFor current := by
  have hsublist := i.pass_carried_sublist piece
  rcases h with hnone | ⟨target, t, htarget, hcurrent, hcarried⟩
  · rw [hnone, List.sublist_nil] at hsublist
    exact .inl hsublist
  · exact .inr ⟨target, t, htarget, hcurrent, hsublist.trans hcarried⟩

theorem CarriesFor.step {i : Injector} {current : Option Tuple} (h : i.CarriesFor current)
    (e : InjectorEvent) : (i.step e).CarriesFor (i.injecting current e) := by
  rcases i.step_carried_cases e with ⟨piece, rfl⟩ | hnone | ⟨hactivate, htaken, htarget, hcarried⟩
  · change (i.intercept piece).1.CarriesFor ((i.taken (.fetch piece)).or current)
    rcases i.intercept_state piece with hsame | ⟨target, htarget, hconcerns, hpassed⟩
    · have hnone : i.taken (.fetch piece) = none := taken_of_same (congrArg Injector.queue hsame)
      rw [hsame, hnone]
      exact h
    · rw [hpassed]
      exact (h.arm htarget hconcerns).pass piece
  · exact .inl hnone
  · rw [injecting_of_not_activate hactivate, htaken, Option.none_or, CarriesFor, htarget, hcarried]
    exact h

theorem CarriesFor.run {i : Injector} {current : Option Tuple} (h : i.CarriesFor current)
    (events : List InjectorEvent) : (i.run events).CarriesFor (i.underWay current events) := by
  induction events generalizing i current with
  | nil => exact h
  | cons e rest ih => exact ih (h.step e)

theorem underWay_append (i : Injector) (current : Option Tuple) (front back : List InjectorEvent) :
    i.underWay current (front ++ back) = (i.run front).underWay (i.underWay current front) back := by
  induction front generalizing i current with
  | nil => rfl
  | cons e rest ih => exact ih (i.step e) (i.injecting current e)

/-- An injection that is under way was begun in the course of the events, or was under way before them and
    has not been ended by arming the injector. -/
theorem underWay_cases {i : Injector} {current : Option Tuple} {events : List InjectorEvent} {t : Tuple}
    (h : i.underWay current events = some t) :
    t ∈ i.takenDuring events ∨ current = some t ∧ ∀ e ∈ events, e.isActivate = false := by
  induction events generalizing i current with
  | nil => exact .inr ⟨h, fun _ he => nomatch he⟩
  | cons e rest ih =>
    rcases ih h with htaken | ⟨hcurrent, hrest⟩
    · exact .inl (List.mem_append_right _ htaken)
    · cases he : e.isActivate with
      | true =>
        cases e with
        | activate => cases hcurrent
        | _ => cases he
      | false =>
        have hnext : (i.taken e).or current = some t := injecting_of_not_activate he ▸ hcurrent
        rcases Option.or_eq_some_iff.mp hnext with htaken | ⟨_, hbefore⟩
        · left
          rw [takenDuring, htaken]
          exact List.mem_append_left _ (List.mem_singleton_self t)
        · exact .inr ⟨hbefore, List.forall_mem_cons.mpr ⟨he, hrest⟩⟩

/-- A piece that is changed is the piece with some of the texts that are carried for it. -/
theorem CarriesFor.intercept_piece {i : Injector} {current : Option Tuple} (h : i.CarriesFor current)
    {piece : Chunk} {bytes : Bytes} (hbytes : (i.intercept piece).2 = some bytes) :
    ∃ target t texts, i.target = some target ∧
      i.underWay current [.fetch piece] = some t ∧
      texts.Sublist (target.insertions t) ∧ texts ≠ [] ∧ (∀ x ∈ texts, piece.covers x.point = true) ∧
      bytes = weaveFrom texts piece.offset piece.data := by
  obtain ⟨target, htarget, hconcerns, hsome, rfl⟩ := intercept_piece_eq_some hbytes
  rcases h.arm htarget hconcerns with hnone | ⟨target', t, htarget', hcurrent, hcarried⟩
  · rw [hnone] at hsome
    exact absurd rfl hsome
  · have hsame : (i.arm target piece).target = i.target := by
      rcases arm_taken_cases htarget hconcerns with ⟨_, harm⟩ | ⟨_, _, harm, _⟩
      · rw [harm]
      · rw [harm, htarget]
    obtain rfl : target = target' :=
      Option.some.inj (htarget.symm.trans (hsame.symm.trans htarget'))
    refine ⟨target, t, _, htarget, hcurrent, List.filter_sublist.trans hcarried, hsome,
      fun x hx => (List.mem_filter.mp hx).2, ?_⟩
    apply applyAll_eq_weaveFrom
    · intro x hx
      exact target.insertions_startPlain t x (hcarried.subset (List.mem_filter.mp hx).1)
    · intro x hx
      have hcovers := (Chunk.covers_iff piece x.point).mp (List.mem_filter.mp hx).2
      rw [Chunk.stop] at hcovers
      omega

/-- A batch is used up from its front, whatever is done to the injector, short of replacing the batch or
    the target. At any moment the tuples that have been injected or dropped, in the order in which they
    left, and then the queue make up the batch. Between two times when the injector is armed at most one
    tuple is injected. A piece of another script, or of what is no script, passes as it is and changes
    nothing. A piece that is changed keeps all its bytes, and gets texts of only one tuple: the last one
    that was injected since the injector was armed, which is one of the batch if that was after the batch
    was loaded. The past of the injector may be anything, ids need not differ, and pieces need not belong
    to one response. -/
theorem run_of_loaded (before : List InjectorEvent) (batch : List Tuple) {events : List InjectorEvent}
    (hevents : ∀ e ∈ events, e.replaces = false) :
    let loaded := empty.run (before ++ [.load batch])
    let now := loaded.run events
    loaded.removedDuring events ++ now.queue = batch ∧
      (∀ front window back, events = front ++ (window ++ back) →
        (∀ e ∈ window, e.isActivate = false) →
        ((loaded.run front).takenDuring window).length ≤ 1) ∧
      (∀ piece, (ContentType.isScript piece.contentType = false ∨
          ∀ target, now.target = some target → scriptName piece.uri ≠ target.script) →
        now.intercept piece = (now, none)) ∧
      ∀ piece bytes, (now.intercept piece).2 = some bytes → ∃ target t texts,
        now.target = some target ∧
        empty.underWay none (before ++ .load batch :: (events ++ [.fetch piece])) = some t ∧
        (∀ e ∈ events, e.isActivate = true → t ∈ batch) ∧
        texts.Sublist (target.insertions t) ∧ texts ≠ [] ∧ (∀ x ∈ texts, piece.covers x.point = true) ∧
        bytes = weaveFrom texts piece.offset piece.data ∧ piece.data.Sublist bytes := by
  intro loaded now
  have hloaded : loaded.queue = batch := congrArg Injector.queue (run_append empty before [.load batch])
  have hbatch {later : List InjectorEvent} (hlater : ∀ e ∈ later, e.replaces = false) :
      loaded.removedDuring later ++ (loaded.run later).queue = batch :=
    (loaded.removedDuring_append_queue hlater).trans hloaded
  refine ⟨hbatch hevents, ?_, fun piece => intercept_of_foreign, ?_⟩
  · intro front window _ _ hwindow
    exact (loaded.run front).length_takenDuring_le_one hwindow
  · intro piece bytes hbytes
    let current := empty.underWay none (before ++ [.load batch])
    have hcarries : loaded.CarriesFor current := CarriesFor.run (.inl rfl) _
    obtain ⟨target, t, texts, htarget, hnext, hsublist, hsome, hcovers, rfl⟩ :=
      (hcarries.run events).intercept_piece hbytes
    have hsince : loaded.underWay current (events ++ [.fetch piece]) = some t := by
      rw [underWay_append]
      exact hnext
    refine ⟨target, t, texts, htarget, ?_, ?_, hsublist, hsome, hcovers, rfl, sublist_weaveFrom _ _ _⟩
    · rw [List.append_cons, underWay_append]
      exact hsince
    · intro e he harmed
      have hfetched : ∀ f ∈ events ++ [.fetch piece], f.replaces = false := by
        intro f hf
        rcases List.mem_append.mp hf with hf | hf
        · exact hevents f hf
        · rw [List.mem_singleton.mp hf]
          rfl
      rcases underWay_cases hsince with htaken | ⟨_, hidle⟩
      · rw [← hbatch hfetched]
        exact List.mem_append_left _ ((loaded.takenDuring_sublist_removedDuring _).subset htaken)
      · rw [hidle e (List.mem_append_left _ he)] at harmed
        cases harmed

end Injector

namespace Sample

/-- Only the front of the script is asked for, and the other tuple is settled before the rest comes by. -/
def parted : List InjectorEvent := [.activate, .fetch frontPiece, .deactivate, .settle "v"]

end Sample

/-- Both tuples have left the queue, one of them injected and the other one dropped. The rest of the script
    gets a call that belongs to the injected one. -/
theorem Injector.run_of_loaded_parted :
    (∀ e ∈ Sample.parted, e.replaces = false) ∧
      (Sample.selected.load Sample.batch).removedDuring Sample.parted ++
        ((Sample.selected.load Sample.batch).run Sample.parted).queue = Sample.batch ∧
      ∃ t ∈ Sample.batch, ∃ target texts, texts.Sublist (InjectionTarget.insertions target t) ∧
        Text.encode "\x7d;\nouter(1);\n;" = weaveFrom texts 3 Sample.backPiece.data := by
  have hevents : ∀ e ∈ Sample.parted, e.replaces = false := by decide
  obtain ⟨haccount, _, _, hpieces⟩ :=
    run_of_loaded [.select Sample.tree "/a.js/outer/inner" [["1"]]] Sample.batch hevents
  obtain ⟨target, t, texts, _, _, hbatch, hsublist, _, _, hbytes, _⟩ :=
    hpieces Sample.backPiece (Text.encode "\x7d;\nouter(1);\n;") (by decide +kernel)
  exact ⟨hevents, haccount, t, hbatch .activate List.mem_cons_self rfl, target, texts, hsublist, hbytes⟩

end PageProbe
