import PageProbe.Proofs.Injection.Schedule

namespace PageProbe

open Text (Bytes)
open InjectorEvent

/-- The calls of the enclosing functions, as they are spliced. -/
def InjectionTarget.calls (target : InjectionTarget) : List Insertion :=
  target.dependencies.map fun d => ⟨d.point, callStatement d.name d.args⟩

namespace Injector

/-- What closes a window. A choice that fails changes nothing, and so it closes none. -/
inductive Closes (i : Injector) : InjectorEvent → Prop where
  | deactivate : Closes i .deactivate
  | clear : Closes i .clear
  | select {tree : FunctionTree} {path : String} {dependencyArgs : List (List String)} {chosen : Injector}
      (hselect : i.select tree path dependencyArgs = .ok chosen) :
      Closes i (.select tree path dependencyArgs)

/-- What an injector carries along are calls of functions around a nested target. It never carries a
    harness, which is spliced by the piece that arms it. -/
def CarriesCalls (i : Injector) : Prop :=
  i.carried = [] ∨ ∃ target, i.target = some target ∧ target.harness.isTopLevel = false ∧
    i.carried.Sublist target.calls

theorem pass_carried_sublist (i : Injector) (piece : Chunk) :
    (i.pass piece).carried.Sublist i.carried := by
  rw [pass]
  exact List.filter_sublist

/-- The piece that gets the harness leaves no more than calls to be carried. -/
theorem insertions_passed (target : InjectionTarget) (t : Tuple) {piece : Chunk}
    (hcovers : piece.covers target.point = true) :
    let left := (target.insertions t).filter fun x =>
      !piece.covers x.point && decide (piece.offset ≤ x.point)
    left = [] ∨ target.harness.isTopLevel = false ∧ left.Sublist target.calls := by
  intro left
  have hleft : left = (if target.harness.isTopLevel then [] else target.calls).filter fun x =>
      !piece.covers x.point && decide (piece.offset ≤ x.point) :=
    List.filter_cons_of_neg (by simp [hcovers])
  rw [hleft]
  cases htop : target.harness.isTopLevel with
  | true => exact .inl rfl
  | false => exact .inr ⟨rfl, List.filter_sublist⟩

theorem CarriesCalls.intercept {i : Injector} (h : i.CarriesCalls) (piece : Chunk) :
    (i.intercept piece).1.CarriesCalls := by
  rcases i.intercept_state piece with hsame | ⟨target, htarget, _, hpassed⟩
  · rwa [hsame]
  · rw [hpassed]
    rcases i.arm_cases target piece with harm | ⟨t, rest, -, -, hcovers, harm⟩
    · rw [harm]
      rcases h with hnone | ⟨target', htarget', hnested, hcalls⟩
      · have hsublist := i.pass_carried_sublist piece
        rw [hnone, List.sublist_nil] at hsublist
        exact .inl hsublist
      · exact .inr ⟨target', htarget', hnested, (i.pass_carried_sublist piece).trans hcalls⟩
    · rw [harm]
      exact (insertions_passed target t hcovers).imp id fun hcalls => ⟨target, htarget, hcalls⟩

theorem settle_target_carried (i : Injector) (uuid : String) :
    (i.settle uuid).target = i.target ∧ (i.settle uuid).carried = i.carried := by
  rw [settle]
  split
  · split <;> exact ⟨rfl, rfl⟩
  · exact ⟨rfl, rfl⟩

/-- A new target starts with nothing to carry. -/
theorem select_carried {before i : Injector} {tree : FunctionTree} {path : String}
    {dependencyArgs : List (List String)} (h : before.select tree path dependencyArgs = .ok i) :
    i.carried = [] := by
  rw [select] at h
  cases htarget : InjectionTarget.ofPath tree path dependencyArgs with
  | error => rw [htarget] at h; cases h
  | ok => rw [htarget] at h; cases h; rfl

/-- Only a piece makes an injector take something up. Any other event keeps what is carried, and the
    target with it, or drops all of it, which is what arming does. -/
theorem step_carried_cases (i : Injector) (e : InjectorEvent) :
    (∃ piece, e = .fetch piece) ∨ (i.step e).carried = [] ∨
      e.isActivate = false ∧ i.taken e = none ∧ (i.step e).target = i.target ∧
        (i.step e).carried = i.carried := by
  cases e with
  | select tree path dependencyArgs =>
    rw [Injector.step]
    split
    · next hselect => exact .inr (.inl (select_carried hselect))
    · exact .inr (.inr ⟨rfl, rfl, rfl, rfl⟩)
  | clear | activate => exact .inr (.inl rfl)
  | load | deactivate => exact .inr (.inr ⟨rfl, rfl, rfl, rfl⟩)
  | settle uuid => exact .inr (.inr ⟨rfl, rfl, i.settle_target_carried uuid⟩)
  | fetch piece => exact .inl ⟨piece, rfl⟩

theorem CarriesCalls.step {i : Injector} (h : i.CarriesCalls) (e : InjectorEvent) :
    (i.step e).CarriesCalls := by
  rcases i.step_carried_cases e with ⟨piece, rfl⟩ | hnone | ⟨-, -, htarget, hcarried⟩
  · exact h.intercept piece
  · exact .inl hnone
  · rw [CarriesCalls, htarget, hcarried]
    exact h

/-- Whatever is done to a fresh injector, it never carries anything but calls. -/
theorem run_carriesCalls (events : List InjectorEvent) : (empty.run events).CarriesCalls := by
  suffices ∀ i : Injector, i.CarriesCalls → (i.run events).CarriesCalls from this empty (.inl rfl)
  induction events with
  | nil => exact fun _ h => h
  | cons e rest ih => exact fun i h => ih _ (h.step e)

/-- An injector that is not armed takes nothing up. -/
theorem step_carried_of_inactive {i : Injector} (hinactive : i.active = false) (e : InjectorEvent) :
    (i.step e).carried.Sublist i.carried := by
  rcases i.step_carried_cases e with ⟨piece, rfl⟩ | hnone | ⟨-, -, -, hcarried⟩
  · rw [step]
    rcases i.intercept_state piece with hsame | ⟨target, _, _, hpassed⟩
    · exact hsame.symm ▸ List.Sublist.refl _
    · rw [hpassed, arm_of_inactive target piece hinactive]
      exact i.pass_carried_sublist piece
  · exact hnone.symm ▸ List.nil_sublist _
  · exact hcarried.symm ▸ List.Sublist.refl _

/-- Until it is armed again an injector stays as it is, but for what it lets go of. -/
theorem run_of_inactive {i : Injector} {events : List InjectorEvent} (hinactive : i.active = false)
    (hevents : ∀ e ∈ events, e.isActivate = false) :
    (i.run events).active = false ∧ (i.run events).carried.Sublist i.carried := by
  induction events generalizing i with
  | nil => exact ⟨hinactive, List.Sublist.refl _⟩
  | cons e rest ih =>
    have hstep := step_of_inactive hinactive (hevents e List.mem_cons_self)
    obtain ⟨hlater, hcarried⟩ := ih hstep fun f hf => hevents f (List.mem_cons_of_mem e hf)
    exact ⟨hlater, hcarried.trans (step_carried_of_inactive hinactive e)⟩

/-- A piece that is changed gets what it covers of all that is carried once it has armed the injector. -/
theorem intercept_piece_eq_some {i : Injector} {piece : Chunk} {bytes : Bytes}
    (h : (i.intercept piece).2 = some bytes) :
    ∃ target, i.target = some target ∧ target.concerns piece = true ∧
      ((i.arm target piece).carried.filter fun x => piece.covers x.point) ≠ [] ∧
      bytes = Insertion.applyAll piece.data piece.offset
        ((i.arm target piece).carried.filter fun x => piece.covers x.point) := by
  cases htarget : i.target with
  | none => simp [intercept, htarget] at h
  | some target =>
    cases hconcerns : target.concerns piece with
    | false => simp [intercept, htarget, hconcerns] at h
    | true =>
      simp only [intercept, htarget, hconcerns, if_true] at h
      split at h
      · cases h
      · next hsome => exact ⟨target, rfl, hconcerns, hsome, (Option.some.inj h).symm⟩

/-- Of what is carried, a piece gets what it covers. -/
theorem intercept_piece_of_inactive {i : Injector} (hinactive : i.active = false) {piece : Chunk}
    {bytes : Bytes} (h : (i.intercept piece).2 = some bytes) :
    ∃ target, i.target = some target ∧ target.concerns piece = true ∧
      (i.carried.filter fun x => piece.covers x.point) ≠ [] ∧
      bytes = Insertion.applyAll piece.data piece.offset (i.carried.filter fun x => piece.covers x.point) := by
  obtain ⟨target, htarget, hconcerns, hsome⟩ := intercept_piece_eq_some h
  rw [arm_of_inactive target piece hinactive] at hsome
  exact ⟨target, htarget, hconcerns, hsome⟩

theorem intercept_of_nothing_carried {i : Injector} (hinactive : i.active = false)
    (hcarried : i.carried = []) (piece : Chunk) : (i.intercept piece).2 = none := by
  cases hpiece : (i.intercept piece).2 with
  | none => rfl
  | some bytes =>
    obtain ⟨_, _, _, hsome, _⟩ := intercept_piece_of_inactive hinactive hpiece
    rw [hcarried] at hsome
    exact absurd rfl hsome

/-- A closed window disarms the injector. Only where it is merely disarmed, something may be left. -/
theorem Closes.step {i : Injector} {closing : InjectorEvent} (h : i.Closes closing) :
    (i.step closing).active = false ∧
      (closing ≠ .deactivate → (i.step closing).carried = []) ∧
      (i.step closing).carried.Sublist i.carried := by
  cases h with
  | deactivate => exact ⟨rfl, fun h => absurd rfl h, List.Sublist.refl _⟩
  | clear => exact ⟨rfl, fun _ => rfl, List.nil_sublist _⟩
  | @select tree path dependencyArgs chosen hselect =>
    have hchosen : i.step (.select tree path dependencyArgs) = chosen := by
      rw [Injector.step, hselect]
    rw [hchosen, select_carried hselect]
    exact ⟨select_active hselect, fun _ => rfl, List.nil_sublist _⟩

/-- While the window of an execution is closed no harness is spliced and no tuple is taken, whoever
    fetches what. Responses pass unchanged before the first execution, when the target was dropped or
    chosen anew, and when nothing is carried at the end of the execution, which is so for every target
    that is not nested. Otherwise a piece of the target's script may be changed after all, and gets those
    calls of enclosing functions that the last response of the execution was cut off in front of. -/
theorem intercept_closed {front back : List InjectorEvent} {closing : InjectorEvent}
    (hcloses : (empty.run front).Closes closing) (hback : ∀ e ∈ back, e.isActivate = false)
    (piece : Chunk) :
    let i := empty.run (front ++ closing :: back)
    (i.active = false ∧ (i.intercept piece).1.queue = i.queue) ∧
      (closing ≠ .deactivate ∨ (empty.run front).carried = [] → (i.intercept piece).2 = none) ∧
      (∀ bytes, (i.intercept piece).2 = some bytes → ∃ target calls, i.target = some target ∧
        target.harness.isTopLevel = false ∧ target.concerns piece = true ∧
        calls.Sublist target.calls ∧ calls.Sublist (empty.run front).carried ∧ calls ≠ [] ∧
        (∀ x ∈ calls, piece.covers x.point = true) ∧
        bytes = Insertion.applyAll piece.data piece.offset calls) ∧
      ((empty.run back).intercept piece).2 = none := by
  intro i
  obtain ⟨hdisarmed, hdropped, hkept⟩ := hcloses.step
  have hi : i = ((empty.run front).step closing).run back := by
    rw [← run_cons, ← run_append]
  obtain ⟨hinactive, hcarried⟩ := run_of_inactive hdisarmed hback
  rw [← hi] at hinactive hcarried
  refine ⟨⟨hinactive, (intercept_of_inactive hinactive piece).1⟩, ?_, ?_, ?_⟩
  · intro hnothing
    have hempty : ((empty.run front).step closing).carried = [] := by
      rcases hnothing with hother | hnone
      · exact hdropped hother
      · rwa [hnone, List.sublist_nil] at hkept
    rw [hempty, List.sublist_nil] at hcarried
    exact intercept_of_nothing_carried hinactive hcarried piece
  · intro bytes hbytes
    obtain ⟨target, htarget, hconcerns, hsome, hspliced⟩ := intercept_piece_of_inactive hinactive hbytes
    rcases run_carriesCalls (front ++ closing :: back) with hnone | ⟨target', htarget', hnested, hcalls⟩
    · have hnothing : i.carried = [] := hnone
      rw [hnothing] at hsome
      exact absurd rfl hsome
    · obtain rfl : target = target' := Option.some.inj (htarget.symm.trans htarget')
      refine ⟨target, _, htarget, hnested, hconcerns, List.filter_sublist.trans hcalls,
        (List.filter_sublist.trans hcarried).trans hkept, hsome, fun x hx => ?_, hspliced⟩
      exact (List.mem_filter.mp hx).2
  · obtain ⟨hstill, hnothing⟩ := run_of_inactive (i := empty) rfl hback
    exact intercept_of_nothing_carried hstill (List.sublist_nil.mp hnothing) piece

end Injector

namespace Sample

/-- The script up to behind the injection point of the inner function, and what is left of it. -/
def frontPiece : Chunk := { script.whole with data := script.body.take 3, isLast := false }

def backPiece : Chunk := { script.whole with offset := 3, data := script.body.drop 3 }

/-- An execution whose response is cut off between the two injection points. -/
def cutOff : List InjectorEvent :=
  [.select tree "/a.js/outer/inner" [["1"]], .load [⟨"u", some []⟩], .activate, .fetch frontPiece]

/-- What is done after the execution has been ended. -/
def ended : List InjectorEvent := [.settle "u"]

end Sample

namespace Injector

/-- When the rest of the response comes by after the end of the execution, it is changed all the same. -/
theorem intercept_after_deactivate :
    (∀ e ∈ Sample.ended, e.isActivate = false) ∧
      ((empty.run (Sample.cutOff ++ .deactivate :: Sample.ended)).intercept Sample.backPiece).2 =
        some (Text.encode "\x7d;\nouter(1);\n;") := by
  decide +kernel

theorem intercept_closed_cutOff :
    ((empty.run (Sample.cutOff ++ .deactivate :: Sample.ended)).intercept Sample.backPiece).1.queue = [] ∧
      ∃ target calls, calls.Sublist (InjectionTarget.calls target) ∧ calls ≠ [] ∧
        Text.encode "\x7d;\nouter(1);\n;" =
          Insertion.applyAll Sample.backPiece.data Sample.backPiece.offset calls := by
  obtain ⟨⟨_, hqueue⟩, _, hcalls, _⟩ := intercept_closed
    (show (empty.run Sample.cutOff).Closes .deactivate from .deactivate)
    (show ∀ e ∈ Sample.ended, e.isActivate = false by decide) Sample.backPiece
  obtain ⟨target, calls, _, _, _, hsublist, _, hsome, _, hbytes⟩ :=
    hcalls (Text.encode "\x7d;\nouter(1);\n;") (by decide +kernel)
  exact ⟨hqueue, target, calls, hsublist, hsome, hbytes⟩

end Injector
end PageProbe
