import Mathlib.Data.List.Induction
import Mathlib.Data.List.Infix
import PageProbe.Proofs.Session.Executions
import PageProbe.Proofs.Tree.Addressing

namespace PageProbe

/-- What is done with a session. -/
inductive SessionStep where
  | subscribe
  | unsubscribe (observer : Nat)
  | select (tree : FunctionTree) (path : String)
  | setDependencyArgs (index : Nat) (args : List String)
  | showModules (registry : ModuleRegistry)
  | chooseModules (modules : SelectedModules)
  | showProgress (progress : Progress)
  | storeRecords (records : List FuzzRecord)

/-- Nobody is told of it. -/
def SessionStep.isSilent : SessionStep → Bool
  | setDependencyArgs _ _ | storeRecords _ => true
  | _ => false

/-- The same function without arguments. -/
def Dependency.bare (d : Dependency) : Dependency := { d with concreteArgs := [] }

namespace SessionModel

/-- The model without the records, of which nobody is told. -/
def shown (m : SessionModel) : SessionModel := { m with records := [] }

/-- What is shown, without the arguments of the enclosing functions. -/
def bare (m : SessionModel) : SessionModel :=
  { m.shown with dependencies := m.dependencies.map Dependency.bare }

/-- Sets the arguments of an enclosing function. -/
def withArgs (m : SessionModel) (index : Nat) (args : List String) : SessionModel :=
  { m with dependencies := m.dependencies.modify index fun d => { d with concreteArgs := args } }

variable {m : SessionModel}

theorem bare_withArgs (index : Nat) (args : List String) : (m.withArgs index args).bare = m.bare := by
  have hmap : (m.dependencies.modify index fun d => { d with concreteArgs := args }).map Dependency.bare =
      m.dependencies.map Dependency.bare := by
    refine List.ext_getElem? fun i => ?_
    rw [List.getElem?_map, List.getElem?_map, List.getElem?_modify]
    cases m.dependencies[i]? with
    | none => rfl
    | some d => by_cases hi : index = i <;> simp [hi, Dependency.bare]
  exact congrArg (fun ds => { m.shown with dependencies := ds }) hmap

/-- Only arguments that stand already can be set with nothing to be seen. -/
theorem shown_withArgs_iff (index : Nat) (args : List String) : (m.withArgs index args).shown = m.shown ↔
    ∀ d, m.dependencies[index]? = some d → d.concreteArgs = args := by
  have hdependencies : (m.withArgs index args).shown = m.shown ↔
      (m.withArgs index args).dependencies = m.dependencies :=
    ⟨congrArg SessionModel.dependencies, congrArg fun ds => { m.shown with dependencies := ds }⟩
  rw [hdependencies]
  constructor
  · intro h d hd
    have hset := congrArg (·[index]?) h
    simp only [withArgs, List.getElem?_modify_eq, hd] at hset
    exact (congrArg Dependency.concreteArgs (Option.some.inj hset)).symm
  · intro h
    refine List.ext_getElem? fun i => ?_
    rw [withArgs, List.getElem?_modify]
    by_cases hi : index = i
    · subst hi
      cases hd : m.dependencies[index]? with
      | none => rfl
      | some d => simp [← h d hd]
    · simp [hi]

end SessionModel

namespace Session

def perform (s : Session) : SessionStep → Except SessionError Session
  | .subscribe => .ok s.subscribe.1
  | .unsubscribe observer => .ok (s.unsubscribe observer)
  | .select tree path => s.select tree path
  | .setDependencyArgs index args => s.setDependencyArgs index args
  | .showModules registry => .ok (s.showModules registry)
  | .chooseModules modules => .ok (s.chooseModules modules)
  | .showProgress p => .ok (s.showProgress p)
  | .storeRecords records => .ok (s.storeRecords records)

/-- The session after a step. One that fails changes nothing. -/
def step (s : Session) (t : SessionStep) : Session := (s.perform t).toOption.getD s

def run (s : Session) (steps : List SessionStep) : Session := steps.foldl step s

/-- What an observer knows that keeps the model of its last notice: before the first one, the model of a
    session in which nothing has happened. -/
def known (s : Session) (observer : Nat) : SessionModel :=
  ((s.notices.toList.filter (·.observer == observer)).getLast?.map (·.model)).getD SessionModel.blank

/-- A session that has an observer from the start, with the number zero. -/
def watched : Session := start.subscribe.1

variable {s s' s'' : Session} {observer : Nat} {t : SessionStep}

theorem run_concat (s : Session) (steps : List SessionStep) (t : SessionStep) :
    s.run (steps ++ [t]) = (s.run steps).step t := by
  simp only [run, List.foldl_append, List.foldl_cons, List.foldl_nil]

theorem known_congr (h : s'.notices = s.notices) : s'.known observer = s.known observer := by
  rw [known, known, h]

/-- An announcement tells the model as it is. -/
theorem known_announce (h : observer ∈ s.observers) (update : ModelUpdate) :
    (s.announce update).known observer = s.model := by
  have hmodels : ∀ n ∈ (s.observers.map fun o => (⟨o, update, s.model⟩ : Notice)).filter
      (·.observer == observer), n.model = s.model := by
    intro n hn
    obtain ⟨o, -, rfl⟩ := List.mem_map.mp (List.mem_of_mem_filter hn)
    rfl
  have hsome : (s.observers.map fun o => (⟨o, update, s.model⟩ : Notice)).filter
      (·.observer == observer) ≠ [] := by
    refine List.ne_nil_of_mem (a := ⟨observer, update, s.model⟩) (List.mem_filter.mpr ⟨?_, ?_⟩)
    · exact List.mem_map.mpr ⟨observer, h, rfl⟩
    · exact beq_self_eq_true observer
  rw [known, announce_notices, List.filter_append, List.getLast?_append_of_ne_nil _ hsome,
    List.getLast?_eq_some_getLast hsome]
  exact hmodels _ (List.getLast_mem hsome)

/-- Between two sessions an observer was told of the model, or there was nothing to tell. -/
structure Tells (observer : Nat) (s s' : Session) : Prop where
  listens : observer ∈ s'.observers
  told : s'.known observer = s'.model ∨ s'.model = s.model ∧ s'.notices = s.notices

theorem Tells.trans (h : Tells observer s s') (h' : Tells observer s' s'') : Tells observer s s'' := by
  refine ⟨h'.listens, ?_⟩
  rcases h'.told with htold | ⟨hmodel, hnotices⟩
  · exact .inl htold
  · rw [known_congr hnotices, hmodel, hnotices]
    exact h.told

theorem tells_announce (h : observer ∈ s.observers) (change : SessionModel → SessionModel)
    (update : ModelUpdate) : Tells observer s (announce { s with model := change s.model } update) :=
  ⟨h, .inl (known_announce (s := { s with model := change s.model }) h update)⟩

theorem tells_changeIf (h : observer ∈ s.observers) (differs : Bool)
    (change : SessionModel → SessionModel) (update : ModelUpdate) :
    Tells observer s (s.changeIf differs change update) := by
  cases differs with
  | true => exact tells_announce h change update
  | false => exact ⟨h, .inr ⟨rfl, rfl⟩⟩

theorem Tells.changeIf (h : Tells observer s s') (differs : Bool) (change : SessionModel → SessionModel)
    (update : ModelUpdate) : Tells observer s (s'.changeIf differs change update) :=
  h.trans (tells_changeIf h.listens differs change update)

/-- Each kind of modules is announced by itself, and only when it differs. -/
theorem tells_showModules (h : observer ∈ s.observers) (registry : ModuleRegistry) :
    Tells observer s (s.showModules registry) := by
  rw [showModules]
  exact ((tells_changeIf h _ _ _).changeIf _ _ _).changeIf _ _ _

theorem tells_select {tree : FunctionTree} {path : String} (h : observer ∈ s.observers)
    (hselect : s.select tree path = .ok s') : Tells observer s s' := by
  rw [select] at hselect
  split at hselect
  · cases hselect
  · next leaf _ =>
    cases hselect
    exact tells_announce h (fun m => { m with
      selectedFunction := some leaf.path
      dependencies := (tree.dependencies leaf).map fun d => ⟨d.path, d.args, []⟩ }) _

theorem setDependencyArgs_cases {index : Nat} {args : List String}
    (h : s.setDependencyArgs index args = .ok s') :
    index < s.model.dependencies.length ∧ s' = { s with model := s.model.withArgs index args } := by
  rw [setDependencyArgs] at h
  split at h
  · next hindex => exact ⟨hindex, (Except.ok.inj h).symm⟩
  · cases h

/-- What a step does that an observer does not end: it is told of everything but arguments and records. -/
theorem perform_cases (h : observer ∈ s.observers) (ht : t ≠ .unsubscribe observer)
    (hperform : s.perform t = .ok s') :
    t.isSilent = false ∧ Tells observer s s' ∨
    (∃ index args, t = .setDependencyArgs index args ∧ index < s.model.dependencies.length ∧
      s' = { s with model := s.model.withArgs index args }) ∨
    ∃ records, t = .storeRecords records ∧ s' = s.storeRecords records := by
  cases t with
  | subscribe =>
    cases hperform
    exact .inl ⟨rfl, List.mem_append_left _ h, .inr ⟨rfl, rfl⟩⟩
  | unsubscribe other =>
    cases hperform
    have hother : observer ≠ other := fun e => ht (congrArg SessionStep.unsubscribe e.symm)
    exact .inl ⟨rfl, List.mem_filter.mpr ⟨h, bne_iff_ne.mpr hother⟩, .inr ⟨rfl, rfl⟩⟩
  | select tree path => exact .inl ⟨rfl, tells_select h hperform⟩
  | setDependencyArgs index args =>
    exact .inr (.inl ⟨index, args, rfl, setDependencyArgs_cases hperform⟩)
  | showModules registry =>
    cases hperform
    exact .inl ⟨rfl, tells_showModules h registry⟩
  | chooseModules modules =>
    cases hperform
    exact .inl ⟨rfl, tells_announce h (fun m => { m with selectedModules := some modules }) _⟩
  | showProgress p =>
    cases hperform
    exact .inl ⟨rfl, tells_announce h (fun m => { m with progress := p }) _⟩
  | storeRecords records =>
    cases hperform
    exact .inr (.inr ⟨records, rfl, rfl⟩)

/-- A session of which an observer knows everything that is shown but the arguments of the enclosing
    functions. -/
structure Follows (observer : Nat) (s : Session) : Prop where
  listens : observer ∈ s.observers
  bare : (s.known observer).bare = s.model.bare

theorem watched_follows : Follows 0 watched := ⟨List.mem_singleton_self 0, rfl⟩

theorem Tells.follows (h : Tells observer s s') (hs : Follows observer s) : Follows observer s' := by
  refine ⟨h.listens, ?_⟩
  rcases h.told with htold | ⟨hmodel, hnotices⟩
  · rw [htold]
  · rw [known_congr hnotices, hmodel]
    exact hs.bare

theorem Follows.perform (h : Follows observer s) (ht : t ≠ .unsubscribe observer)
    (hperform : s.perform t = .ok s') : Follows observer s' := by
  rcases perform_cases h.listens ht hperform with
    ⟨-, htells⟩ | ⟨index, args, -, -, rfl⟩ | ⟨records, -, rfl⟩
  · exact htells.follows h
  · exact ⟨h.listens, h.bare.trans (SessionModel.bare_withArgs index args).symm⟩
  · exact ⟨h.listens, h.bare⟩

theorem Follows.step (h : Follows observer s) (ht : t ≠ .unsubscribe observer) :
    Follows observer (s.step t) := by
  rw [Session.step]
  cases hperform : s.perform t with
  | error e => exact h
  | ok s' => exact h.perform ht hperform

theorem Follows.run (h : Follows observer s) {steps : List SessionStep}
    (hsteps : .unsubscribe observer ∉ steps) : Follows observer (s.run steps) := by
  induction steps using List.reverseRecOn with
  | nil => exact h
  | append_singleton steps t ih =>
    rw [List.mem_append, List.mem_singleton, not_or] at hsteps
    rw [run_concat]
    exact (ih hsteps.1).step fun e => hsteps.2 e.symm

/-- Whoever knows everything that is shown knows it after a step too, if that sets no other arguments. -/
theorem known_step_iff (h : observer ∈ s.observers) (ht : t ≠ .unsubscribe observer)
    (hknown : (s.known observer).shown = s.model.shown) :
    ((s.step t).known observer).shown = (s.step t).model.shown ↔
      ∀ index args, t = .setDependencyArgs index args →
        ∀ d, s.model.dependencies[index]? = some d → d.concreteArgs = args := by
  cases hperform : s.perform t with
  | error e =>
    have hstep : s.step t = s := by rw [step, hperform]; rfl
    refine iff_of_true (by rw [hstep, hknown]) fun index args hset d hd => ?_
    subst hset
    have hindex : index < s.model.dependencies.length := (List.getElem?_eq_some_iff.mp hd).1
    rw [perform, setDependencyArgs, if_pos hindex] at hperform
    cases hperform
  | ok s' =>
    have hstep : s.step t = s' := by rw [step, hperform]; rfl
    rw [hstep]
    rcases perform_cases h ht hperform with
      ⟨hsilent, htells⟩ | ⟨index, args, rfl, -, rfl⟩ | ⟨records, rfl, rfl⟩
    · refine iff_of_true ?_ fun index args hset => by cases hset ▸ hsilent
      rcases htells.told with htold | ⟨hmodel, hnotices⟩
      · rw [htold]
      · rw [known_congr hnotices, hmodel, hknown]
    · have hsame : (s.known observer).shown = (s.model.withArgs index args).shown ↔
          ∀ d, s.model.dependencies[index]? = some d → d.concreteArgs = args := by
        rw [hknown, eq_comm]
        exact SessionModel.shown_withArgs_iff index args
      refine hsame.trans ⟨fun hargs index' args' hset => ?_, fun hargs => hargs index args rfl⟩
      cases hset
      exact hargs
    · exact iff_of_true hknown fun index args hset => by cases hset

/-- Sets arguments anew, at some step, that stand already. -/
def SetsNothing (s : Session) (steps : List SessionStep) : Prop :=
  ∀ done index args, done ++ [.setDependencyArgs index args] <+: steps →
    ∀ d, (s.run done).model.dependencies[index]? = some d → d.concreteArgs = args

/-- Whoever knows everything that is shown goes on to know it just as long as no other arguments are set. -/
theorem Follows.run_iff (h : Follows observer s) (hknown : (s.known observer).shown = s.model.shown)
    {steps : List SessionStep} (hsteps : .unsubscribe observer ∉ steps) :
    (∀ done, done <+: steps → ((s.run done).known observer).shown = (s.run done).model.shown) ↔
      s.SetsNothing steps := by
  have hfollows {done : List SessionStep} (hdone : done <+: steps) : Follows observer (s.run done) :=
    h.run fun hmem => hsteps (hdone.subset hmem)
  have hlast {done : List SessionStep} {t : SessionStep} (hdone : done ++ [t] <+: steps) :
      done <+: steps ∧ t ≠ .unsubscribe observer :=
    ⟨(List.prefix_append done [t]).trans hdone,
      fun e => hsteps (hdone.subset (List.mem_append_right _ (e ▸ List.mem_singleton_self t)))⟩
  constructor
  · intro hall done index args hdone
    obtain ⟨hbefore, ht⟩ := hlast hdone
    have hiff := known_step_iff (hfollows hbefore).listens ht (hall done hbefore)
    rw [← run_concat] at hiff
    exact hiff.mp (hall _ hdone) index args rfl
  · intro hsets done hdone
    induction done using List.reverseRecOn with
    | nil => exact hknown
    | append_singleton done t ih =>
      obtain ⟨hbefore, ht⟩ := hlast hdone
      rw [run_concat]
      refine (known_step_iff (hfollows hbefore).listens ht (ih hbefore)).mpr fun index args hset => ?_
      exact hsets done index args (hset ▸ hdone)

/-- An observer that is there from the start always knows what is shown but for the arguments of enclosing
    functions, and every successful step that is not silent tells it of the model, or has nothing to tell.
    It always knows these arguments too just when no step sets other ones than stand already. -/
theorem run_known {steps : List SessionStep} (hsteps : .unsubscribe 0 ∉ steps) :
    ((watched.run steps).known 0).bare = (watched.run steps).model.bare ∧
    (∀ t s', t ≠ .unsubscribe 0 → t.isSilent = false → (watched.run steps).perform t = .ok s' →
      s'.known 0 = s'.model ∨
        s'.model = (watched.run steps).model ∧ s'.notices = (watched.run steps).notices) ∧
    ((∀ done, done <+: steps → ((watched.run done).known 0).shown = (watched.run done).model.shown) ↔
      watched.SetsNothing steps) := by
  have hfollows : Follows 0 (watched.run steps) := watched_follows.run hsteps
  refine ⟨hfollows.bare, fun t s' ht hsilent hperform => ?_, watched_follows.run_iff rfl hsteps⟩
  rcases perform_cases hfollows.listens ht hperform with ⟨-, htells⟩ | ⟨_, _, rfl, -⟩ | ⟨_, rfl, -⟩
  · exact htells.told
  · cases hsilent
  · cases hsilent

end Session

namespace Sample

/-- A function inside of another one is selected. -/
def selectInner : SessionStep := .select twoScripts "/a.js/f/g"

/-- The function around it gets the arguments that it has: none. -/
def standing : List SessionStep := [selectInner, .setDependencyArgs 0 []]

end Sample

namespace Session

theorem run_known_selected :
    .unsubscribe 0 ∉ Sample.standing ∧ watched.SetsNothing Sample.standing ∧
      (watched.run Sample.standing).model.dependencies = [⟨"/a.js/f", [], []⟩] ∧
      ((watched.run Sample.standing).known 0).shown = (watched.run Sample.standing).model.shown := by
  have hsteps : .unsubscribe 0 ∉ Sample.standing := by simp [Sample.standing, Sample.selectInner]
  have hselected : (watched.run [Sample.selectInner]).model.dependencies = [⟨"/a.js/f", [], []⟩] := by decide
  have hsets : watched.SetsNothing Sample.standing := by
    intro done index args hdone d hd
    match done, hdone with
    | [], hdone => simp [Sample.standing, Sample.selectInner] at hdone
    | [_], hdone =>
      simp only [Sample.standing, List.cons_append, List.nil_append, List.cons_prefix_cons,
        SessionStep.setDependencyArgs.injEq] at hdone
      obtain ⟨rfl, ⟨rfl, rfl⟩, -⟩ := hdone
      rw [hselected] at hd
      cases hd
      rfl
    | _ :: _ :: rest, hdone =>
      have hlength := hdone.length_le
      simp [Sample.standing] at hlength
  obtain ⟨-, -, hall⟩ := run_known hsteps
  exact ⟨hsteps, hsets, by decide, hall.mpr hsets _ (List.prefix_refl _)⟩

/-- The arguments are set, and nobody is told. -/
theorem run_known_unannounced :
    ∃ s, (watched.run [Sample.selectInner]).perform (.setDependencyArgs 0 ["1"]) = .ok s ∧
      s.notices = (watched.run [Sample.selectInner]).notices ∧
      s.model.dependencies = [⟨"/a.js/f", [], ["1"]⟩] ∧
      (s.known 0).dependencies = [⟨"/a.js/f", [], []⟩] :=
  ⟨watched.run [Sample.selectInner, .setDependencyArgs 0 ["1"]], rfl, rfl, by decide, by decide⟩

end Session
end PageProbe
