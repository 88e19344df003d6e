import Mathlib.Data.List.Nodup
import PageProbe.Page.Analysis

namespace PageProbe

/-- What is against analysing a script, if anything: it can not be parsed, or its declarations can not be
    indexed. The tree has no say in that. -/
def ScriptSource.refusal? (script : ScriptSource) (withAnonymous : Bool) : Option AnalysisError :=
  (Script.parse? script.source).elim (some (.unparsable script.name)) fun program =>
    match Discovery.ofProgram program script.name script.source withAnonymous with
    | .error e => some (.unindexable script.name e)
    | .ok _ => none

namespace ScriptSource

variable {script : ScriptSource} {withAnonymous : Bool}

theorem refusal?_eq_none_iff : script.refusal? withAnonymous = none ↔
    ∃ program found, Script.parse? script.source = some program ∧
      Discovery.ofProgram program script.name script.source withAnonymous = .ok found := by
  rw [refusal?]
  cases Script.parse? script.source with
  | none => simp
  | some program =>
    cases hfound : Discovery.ofProgram program script.name script.source withAnonymous with
    | error e => simp [hfound]
    | ok found => simp [hfound]

/-- The scripts that can be analysed. -/
def analysable (withAnonymous : Bool) (scripts : List ScriptSource) : List ScriptSource :=
  scripts.filter fun s => (s.refusal? withAnonymous).isNone

/-- The other scripts, each with what is against it. -/
def refusals (withAnonymous : Bool) (scripts : List ScriptSource) : List AnalysisFailure :=
  scripts.filterMap fun s => (s.refusal? withAnonymous).map (⟨s.name, ·⟩)

theorem analysable_cons_of_none {rest : List ScriptSource} (h : script.refusal? withAnonymous = none) :
    analysable withAnonymous (script :: rest) = script :: analysable withAnonymous rest :=
  List.filter_cons_of_pos (by rw [h]; rfl)

theorem analysable_cons_of_some {rest : List ScriptSource} {e : AnalysisError}
    (h : script.refusal? withAnonymous = some e) :
    analysable withAnonymous (script :: rest) = analysable withAnonymous rest :=
  List.filter_cons_of_neg (by rw [h]; exact Bool.false_ne_true)

theorem refusals_cons_of_none {rest : List ScriptSource} (h : script.refusal? withAnonymous = none) :
    refusals withAnonymous (script :: rest) = refusals withAnonymous rest := by
  rw [refusals, List.filterMap_cons, h]
  rfl

theorem refusals_cons_of_some {rest : List ScriptSource} {e : AnalysisError}
    (h : script.refusal? withAnonymous = some e) :
    refusals withAnonymous (script :: rest) = ⟨script.name, e⟩ :: refusals withAnonymous rest := by
  rw [refusals, List.filterMap_cons, h]
  rfl

/-- What can be analysed is not refused. -/
theorem refusals_analysable (withAnonymous : Bool) (scripts : List ScriptSource) :
    refusals withAnonymous (analysable withAnonymous scripts) = [] := by
  refine List.filterMap_eq_nil_iff.mpr fun s hs => ?_
  have hnone := (List.mem_filter.mp hs).2
  rw [Option.isNone_iff_eq_none.mp hnone]
  rfl

end ScriptSource

namespace FunctionTree

theorem analyse_eq_elim (tree : FunctionTree) (script : ScriptSource) (withAnonymous : Bool) :
    tree.analyse script withAnonymous =
      (Script.parse? script.source).elim (.error (.unparsable script.name)) fun program =>
        tree.analyseProgram script program withAnonymous := by
  delta FunctionTree.analyse
  cases Script.parse? script.source <;> rfl

/-- An analysis fails on one tree just as it does on any other. -/
theorem analyse_of_refusal {script : ScriptSource} {withAnonymous : Bool} {e : AnalysisError}
    (h : script.refusal? withAnonymous = some e) (tree : FunctionTree) :
    tree.analyse script withAnonymous = .error e := by
  rw [ScriptSource.refusal?] at h
  cases hparse : Script.parse? script.source with
  | none =>
    rw [hparse] at h
    rw [analyse_eq_elim, hparse]
    exact congrArg Except.error (Option.some.inj h)
  | some program =>
    rw [hparse, Option.elim_some] at h
    rw [analyse_eq_elim, hparse, Option.elim_some, analyseProgram]
    cases hfound : Discovery.ofProgram program script.name script.source withAnonymous with
    | error e' =>
      rw [hfound] at h
      exact congrArg Except.error (Option.some.inj h)
    | ok found =>
      rw [hfound] at h
      cases h

theorem analyse_of_analysable {script : ScriptSource} {withAnonymous : Bool}
    (h : script.refusal? withAnonymous = none) (tree : FunctionTree) :
    ∃ tree' report, tree.analyse script withAnonymous = .ok (tree', report) ∧
      report.file = script.name := by
  obtain ⟨program, found, hparse, hfound⟩ := ScriptSource.refusal?_eq_none_iff.mp h
  rw [analyse_eq_elim, hparse, Option.elim_some, analyseProgram, hfound]
  exact ⟨_, _, rfl, rfl⟩

end FunctionTree

namespace PageAnalysis

open ScriptSource

/-- The page when the first script in the queue has been taken out for its turn. -/
def begun (p : PageAnalysis) (script : ScriptSource) (rest : List ScriptSource) : PageAnalysis :=
  { p with
    queue := rest, attempted := p.attempted ++ [script.name], finished := p.finished || rest.isEmpty }

theorem next_of_empty {p : PageAnalysis} (hqueue : p.queue = []) : p.next = (p, none) := by
  rw [next, hqueue]

theorem next_of_refusal {p : PageAnalysis} {script : ScriptSource} {rest : List ScriptSource}
    {e : AnalysisError} (hqueue : p.queue = script :: rest)
    (h : script.refusal? p.withAnonymous = some e) :
    p.next.1 = { p.begun script rest with failures := p.failures ++ [⟨script.name, e⟩] } := by
  rw [next, hqueue]
  simp only [FunctionTree.analyse_of_refusal h]
  rfl

theorem next_of_analysed {p : PageAnalysis} {script : ScriptSource} {rest : List ScriptSource}
    {tree : FunctionTree} {report : AnalysisReport} (hqueue : p.queue = script :: rest)
    (h : p.tree.analyse script p.withAnonymous = .ok (tree, report)) :
    p.next.1 = { p.begun script rest with tree := tree, reports := p.reports ++ [report] } := by
  rw [next, hqueue]
  simp only [h]
  rfl

/-- Whatever comes of a script, it has had its turn. -/
theorem next_of_cons {p : PageAnalysis} {script : ScriptSource} {rest : List ScriptSource}
    (hqueue : p.queue = script :: rest) :
    p.next.1.queue = rest ∧ p.next.1.attempted = p.attempted ++ [script.name] ∧
      p.next.1.finished = (p.finished || rest.isEmpty) := by
  cases hrefusal : script.refusal? p.withAnonymous with
  | some e =>
    rw [next_of_refusal hqueue hrefusal]
    exact ⟨rfl, rfl, rfl⟩
  | none =>
    obtain ⟨_, _, hok, _⟩ := FunctionTree.analyse_of_analysable hrefusal p.tree
    rw [next_of_analysed hqueue hok]
    exact ⟨rfl, rfl, rfl⟩

theorem all_of_empty {p : PageAnalysis} (hqueue : p.queue = []) : p.all = p := by
  rw [all, hqueue]
  rfl

theorem all_of_cons {p : PageAnalysis} {script : ScriptSource} {rest : List ScriptSource}
    (hqueue : p.queue = script :: rest) : p.all = p.next.1.all := by
  rw [all, all, (next_of_cons hqueue).1, hqueue]
  rfl

/-- A page is finished when nothing waits, and only then. -/
def InStep (p : PageAnalysis) : Prop := p.finished = true ↔ p.queue = []

/-- The scripts have their turns in the order of the queue, one after another, and the page is finished
    with the last of them. -/
theorem advance_turns {p : PageAnalysis} (hstep : p.InStep) (n : Nat) :
    (advance n p).queue = p.queue.drop n ∧
      (advance n p).attempted = p.attempted ++ (p.queue.take n).map (·.name) ∧ (advance n p).InStep := by
  induction n generalizing p with
  | zero => exact ⟨rfl, (List.append_nil _).symm, hstep⟩
  | succ n ih =>
    rw [advance]
    cases hqueue : p.queue with
    | nil =>
      rw [next_of_empty hqueue]
      obtain ⟨hrest, hattempted, hlater⟩ := ih hstep
      rw [hqueue, List.drop_nil] at hrest
      rw [hqueue, List.take_nil] at hattempted
      exact ⟨hrest, hattempted, hlater⟩
    | cons script rest =>
      obtain ⟨hleft, hturn, hfinished⟩ := next_of_cons hqueue
      have hgoing : p.finished = false := by
        have hnot := mt hstep.mp (by rw [hqueue]; exact List.cons_ne_nil _ _)
        simpa using hnot
      have hnext : p.next.1.InStep := by
        rw [InStep, hfinished, hgoing, hleft, Bool.false_or, List.isEmpty_iff]
      obtain ⟨hrest, hattempted, hlater⟩ := ih hnext
      rw [hleft] at hrest
      rw [hleft, hturn, List.append_assoc] at hattempted
      exact ⟨hrest, hattempted, hlater⟩

/-- The same page, on which the scripts that are refused have never been queued. -/
structure Purged (p q : PageAnalysis) : Prop where
  tree : q.tree = p.tree
  reports : q.reports = p.reports
  withAnonymous : q.withAnonymous = p.withAnonymous
  queue : q.queue = analysable p.withAnonymous p.queue

/-- A script that is refused makes no difference. -/
theorem Purged.next_of_refusal {p q : PageAnalysis} (h : Purged p q) {script : ScriptSource}
    {rest : List ScriptSource} {e : AnalysisError} (hqueue : p.queue = script :: rest)
    (hrefusal : script.refusal? p.withAnonymous = some e) : Purged p.next.1 q := by
  rw [PageAnalysis.next_of_refusal hqueue hrefusal]
  refine ⟨h.tree, h.reports, h.withAnonymous, ?_⟩
  rw [h.queue, hqueue, analysable_cons_of_some hrefusal]
  rfl

/-- Any other script is next on both pages, and finds the same tree. -/
theorem Purged.next_of_analysable {p q : PageAnalysis} (h : Purged p q) {script : ScriptSource}
    {rest : List ScriptSource} (hqueue : p.queue = script :: rest)
    (hrefusal : script.refusal? p.withAnonymous = none) :
    q.queue = script :: analysable p.withAnonymous rest ∧ Purged p.next.1 q.next.1 := by
  have hnext : q.queue = script :: analysable p.withAnonymous rest := by
    rw [h.queue, hqueue, analysable_cons_of_none hrefusal]
  obtain ⟨tree, report, hok, _⟩ := FunctionTree.analyse_of_analysable hrefusal p.tree
  have hsame : q.tree.analyse script q.withAnonymous = .ok (tree, report) := by
    rw [h.tree, h.withAnonymous, hok]
  refine ⟨hnext, ?_⟩
  rw [next_of_analysed hqueue hok, next_of_analysed hnext hsame]
  exact ⟨rfl, congrArg (· ++ [report]) h.reports, h.withAnonymous, rfl⟩

theorem Purged.all {p q : PageAnalysis} (h : Purged p q) : Purged p.all q.all := by
  generalize hqueue : p.queue = queue
  induction queue generalizing p q with
  | nil =>
    have hnone : q.queue = [] := by rw [h.queue, hqueue]; rfl
    rwa [all_of_empty hqueue, all_of_empty hnone]
  | cons script rest ih =>
    have hleft := (next_of_cons hqueue).1
    rw [all_of_cons hqueue]
    cases hrefusal : script.refusal? p.withAnonymous with
    | some e => exact ih (h.next_of_refusal hqueue hrefusal) hleft
    | none =>
      obtain ⟨hnext, hpurged⟩ := h.next_of_analysable hqueue hrefusal
      rw [all_of_cons hnext]
      exact ih hpurged hleft

/-- Every script in the queue ends up in a report or in a failure, and both are in the order of the
    queue. -/
theorem all_results (p : PageAnalysis) :
    p.all.reports.map (·.file) =
        p.reports.map (·.file) ++ (analysable p.withAnonymous p.queue).map (·.name) ∧
      p.all.failures = p.failures ++ refusals p.withAnonymous p.queue := by
  generalize hqueue : p.queue = queue
  induction queue generalizing p with
  | nil =>
    rw [all_of_empty hqueue]
    exact ⟨(List.append_nil _).symm, (List.append_nil _).symm⟩
  | cons script rest ih =>
    have hleft := (next_of_cons hqueue).1
    obtain ⟨hreports, hfailures⟩ := ih p.next.1 hleft
    rw [all_of_cons hqueue, hreports, hfailures]
    cases hrefusal : script.refusal? p.withAnonymous with
    | some e =>
      rw [PageAnalysis.next_of_refusal hqueue hrefusal, analysable_cons_of_some hrefusal,
        refusals_cons_of_some hrefusal]
      exact ⟨rfl, List.append_assoc _ _ _⟩
    | none =>
      obtain ⟨tree, report, hok, hfile⟩ := FunctionTree.analyse_of_analysable hrefusal p.tree
      rw [next_of_analysed hqueue hok, analysable_cons_of_none hrefusal, refusals_cons_of_none hrefusal]
      refine ⟨?_, rfl⟩
      rw [List.map_append, List.append_assoc]
      exact congrArg (fun name => p.reports.map (·.file) ++ name :: _) hfile

/-- On a fresh page everything is queued. -/
theorem populate_empty (page : String) (withAnonymous : Bool) (scripts : List ScriptSource) :
    (empty page withAnonymous).populate scripts =
      { empty page withAnonymous with queue := scripts, finished := scripts.isEmpty } := by
  have hfresh : scripts.filter (fun s => !(empty page withAnonymous).isAnalysed s.name &&
      !(empty page withAnonymous).queue.any (fun q => q.name == s.name)) = scripts :=
    List.filter_eq_self.mpr fun _ _ => rfl
  rw [populate, hfresh]
  cases scripts with
  | nil => rfl
  | cons script rest => rfl

theorem populate_empty_inStep (page : String) (withAnonymous : Bool) (scripts : List ScriptSource) :
    ((empty page withAnonymous).populate scripts).InStep := by
  rw [populate_empty]
  exact List.isEmpty_iff

/-- A page comes to the same tree and the same reports as the page without those of its scripts that can
    not be parsed or indexed. These are its failures, in the order of the queue, and there are no others.
    Every script has its turn just once and in order, and at any time the page is finished if nothing
    waits, and only then. The order of good and bad scripts does not matter. -/
theorem all_of_populate (page : String) (withAnonymous : Bool) {scripts : List ScriptSource}
    (hnames : (scripts.map (·.name)).Nodup) :
    let whole := (empty page withAnonymous).populate scripts
    let sound := (empty page withAnonymous).populate (analysable withAnonymous scripts)
    (whole.all.tree = sound.all.tree ∧ whole.all.reports = sound.all.reports) ∧
      (∀ s, s ∈ analysable withAnonymous scripts ↔ s ∈ scripts ∧ ∃ program found,
        Script.parse? s.source = some program ∧
          Discovery.ofProgram program s.name s.source withAnonymous = .ok found) ∧
      whole.all.failures = refusals withAnonymous scripts ∧ sound.all.failures = [] ∧
      whole.all.reports.map (·.file) = (analysable withAnonymous scripts).map (·.name) ∧
      (whole.all.next = (whole.all, none) ∧ ∀ s ∈ scripts, whole.all.attempted.count s.name = 1) ∧
      ∀ n, (advance n whole).attempted = (scripts.take n).map (·.name) ∧
        (advance n whole).queue = scripts.drop n ∧
        ((advance n whole).finished = true ↔ (advance n whole).pending = 0) := by
  intro whole sound
  have hstep : whole.InStep := populate_empty_inStep page withAnonymous scripts
  have hwhole : whole = _ := populate_empty page withAnonymous scripts
  have hsound : sound = _ := populate_empty page withAnonymous (analysable withAnonymous scripts)
  have hpurged : Purged whole sound := by
    rw [hwhole, hsound]
    exact ⟨rfl, rfl, rfl, rfl⟩
  have hqueue : whole.queue = scripts := by rw [hwhole]
  have hturns (n : Nat) : (advance n whole).queue = scripts.drop n ∧
      (advance n whole).attempted = (scripts.take n).map (·.name) ∧ (advance n whole).InStep := by
    have hadvance := advance_turns hstep n
    rw [hqueue] at hadvance
    refine ⟨hadvance.1, hadvance.2.1.trans ?_, hadvance.2.2⟩
    rw [hwhole]
    rfl
  obtain ⟨hempty, hattempted, _⟩ := hturns scripts.length
  rw [List.drop_length] at hempty
  rw [List.take_length] at hattempted
  have hend : whole.all = advance scripts.length whole := by rw [all, hqueue]
  obtain ⟨hreports, hfailures⟩ := whole.all_results
  have hsoundFailures := sound.all_results.2
  rw [hwhole] at hreports hfailures
  rw [hsound] at hsoundFailures
  refine ⟨⟨hpurged.all.tree.symm, hpurged.all.reports.symm⟩, fun s => ?_, ?_, ?_, ?_, ⟨?_, ?_⟩, fun n => ?_⟩
  · rw [analysable, List.mem_filter, Option.isNone_iff_eq_none, refusal?_eq_none_iff]
  · rw [hwhole]
    exact hfailures
  · rw [hsound]
    exact hsoundFailures.trans (refusals_analysable withAnonymous scripts)
  · rw [hwhole]
    exact hreports
  · exact next_of_empty (by rw [hend, hempty])
  · intro s hs
    rw [hend, hattempted]
    exact List.count_eq_one_of_mem hnames (List.mem_map_of_mem hs)
  · obtain ⟨hrest, hnamed, hlater⟩ := hturns n
    exact ⟨hnamed, hrest, hlater.trans List.length_eq_zero_iff.symm⟩

end PageAnalysis

namespace Sample

/-- Between two scripts that are fine stands one that can not be parsed. -/
def mixedScripts : List ScriptSource :=
  [⟨"a.js", "f()"⟩, ⟨"bad.js", "f("⟩, ⟨"b.js", "g=0"⟩]

end Sample

theorem PageAnalysis.all_of_populate_mixed :
    let whole := (empty "page" false).populate Sample.mixedScripts
    whole.all.reports.map (·.file) = ["a.js", "b.js"] ∧ whole.all.failures.map (·.file) = ["bad.js"] ∧
      whole.all.attempted.count "bad.js" = 1 := by
  intro whole
  have hgood : (ScriptSource.analysable false Sample.mixedScripts).map (·.name) = ["a.js", "b.js"] := by
    decide +kernel
  have hbad : (ScriptSource.refusals false Sample.mixedScripts).map (·.file) = ["bad.js"] := by
    decide +kernel
  obtain ⟨_, _, hfailures, _, hreports, ⟨_, honce⟩, _⟩ :=
    all_of_populate "page" false (show (Sample.mixedScripts.map (·.name)).Nodup by decide)
  exact ⟨hreports.trans hgood, (congrArg _ hfailures).trans hbad,
    honce ⟨"bad.js", "f("⟩ (by decide)⟩

end PageProbe
