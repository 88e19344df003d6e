import Mathlib.Data.List.Induction
import PageProbe.Proofs.Page.Queue

namespace PageProbe

/-- What is done to a page: more scripts are queued, or the script that waits longest is analysed. -/
inductive PageStep where
  | populate (scripts : List ScriptSource)
  | next

/-- The names that a step lists. -/
def PageStep.names : PageStep → List String
  | populate scripts => scripts.map (·.name)
  | next => []

namespace PageAnalysis

def step (p : PageAnalysis) : PageStep → PageAnalysis
  | .populate scripts => p.populate scripts
  | .next => p.next.1

def run (p : PageAnalysis) (steps : List PageStep) : PageAnalysis := steps.foldl step p

/-- The turns that lists of names give: of each list those names that no earlier list has. -/
def inTurn (listed : List (List String)) : List String :=
  listed.foldl (fun turns names => turns ++ names.removeAll turns) []

theorem inTurn_concat (listed : List (List String)) (names : List String) :
    inTurn (listed ++ [names]) = inTurn listed ++ names.removeAll (inTurn listed) :=
  List.foldl_concat _ _ _ _

theorem mem_inTurn {listed : List (List String)} {name : String} :
    name ∈ inTurn listed ↔ name ∈ listed.flatten := by
  induction listed using List.reverseRecOn with
  | nil => rfl
  | append_singleton listed names ih =>
    rw [inTurn_concat, List.mem_append, List.flatten_concat, List.mem_append, List.removeAll,
      List.mem_filter, ih]
    by_cases hlisted : name ∈ listed.flatten
    · simp [hlisted]
    · simp [hlisted, mt ih.mp hlisted]

/-- Only the first list with a name counts for it, and there it counts as often as it stands there. -/
theorem count_inTurn (listed : List (List String)) (name : String) :
    (inTurn listed).count name = ((listed.find? (·.contains name)).getD []).count name := by
  induction listed using List.reverseRecOn with
  | nil => rfl
  | append_singleton listed names ih =>
    rw [inTurn_concat, List.count_append, ih, List.find?_append]
    cases hfirst : listed.find? (·.contains name) with
    | some first =>
      have hmem : name ∈ inTurn listed := by
        refine mem_inTurn.mpr (List.mem_flatten.mpr ⟨first, List.mem_of_find?_eq_some hfirst, ?_⟩)
        simpa using List.find?_some hfirst
      have hnone : (names.removeAll (inTurn listed)).count name = 0 := by
        refine List.count_eq_zero_of_not_mem fun h => ?_
        simpa [hmem] using (List.mem_filter.mp h).2
      simp [hnone]
    | none =>
      have hnew : name ∉ inTurn listed := by
        intro h
        obtain ⟨names', hnames', hname⟩ := List.mem_flatten.mp (mem_inTurn.mp h)
        simpa [hname] using List.find?_eq_none.mp hfirst names' hnames'
      have hkept : (names.removeAll (inTurn listed)).count name = names.count name :=
        List.count_filter (by simpa using hnew)
      rw [hkept]
      by_cases hname : name ∈ names
      · simp [hname]
      · simp [hname, List.count_eq_zero_of_not_mem]

/-- When further turns of a name are left out, the turns are in the order of the lists. -/
theorem eraseDups_inTurn (listed : List (List String)) :
    (inTurn listed).eraseDups = listed.flatten.eraseDups := by
  induction listed using List.reverseRecOn with
  | nil => rfl
  | append_singleton listed names ih =>
    have hmem (name : String) : (inTurn listed).elem name = listed.flatten.elem name := by
      rw [Bool.eq_iff_iff, List.elem_iff, List.elem_iff, mem_inTurn]
    have htwice : (names.removeAll (inTurn listed)).removeAll (inTurn listed) =
        names.removeAll listed.flatten := by
      simp only [List.removeAll, List.filter_filter, Bool.and_self, hmem]
    rw [inTurn_concat, List.eraseDups_append, ih, htwice, List.flatten_concat, List.eraseDups_append]

/-- Lists that name nothing twice give no name two turns. -/
theorem inTurn_nodup {listed : List (List String)} (h : ∀ names ∈ listed, names.Nodup) :
    (inTurn listed).Nodup := by
  refine List.nodup_iff_count_le_one.mpr fun name => ?_
  rw [count_inTurn]
  cases hfirst : listed.find? (·.contains name) with
  | none => exact Nat.zero_le _
  | some first => exact List.nodup_iff_count_le_one.mp (h first (List.mem_of_find?_eq_some hfirst)) name

theorem eraseDups_of_nodup {names : List String} (h : names.Nodup) : names.eraseDups = names := by
  induction names with
  | nil => rfl
  | cons name names ih =>
    obtain ⟨hname, hnames⟩ := List.nodup_cons.mp h
    have hothers : names.filter (fun other => !other == name) = names := by
      refine List.filter_eq_self.mpr fun other hother => ?_
      have hne : other ≠ name := fun heq => hname (heq ▸ hother)
      simpa using hne
    rw [List.eraseDups_cons, hothers, ih hnames]

/-- The names of the scripts that had their turn, and then of those that wait for it. -/
def turns (p : PageAnalysis) : List String := p.attempted ++ p.queue.map (·.name)

theorem populate_turns (p : PageAnalysis) (scripts : List ScriptSource) :
    (p.populate scripts).turns = p.turns ++ (scripts.map (·.name)).removeAll p.turns := by
  have hfresh : (scripts.filter fun s => !p.isAnalysed s.name && !p.queue.any (·.name == s.name)).map
      (·.name) = (scripts.map (·.name)).removeAll p.turns := by
    rw [List.removeAll, List.filter_map]
    refine congrArg _ (List.filter_congr fun s _ => ?_)
    rw [← Bool.not_or]
    refine congrArg _ (Bool.eq_iff_iff.mpr ?_)
    simp [isAnalysed, turns]
  rw [populate, ← hfresh]
  cases hempty : (scripts.filter fun s => !p.isAnalysed s.name && !p.queue.any (·.name == s.name)) with
  | nil => simp [turns]
  | cons first rest => simp [turns]

/-- A step adds the turns of those names that it lists and that have had no turn yet. -/
theorem step_turns (p : PageAnalysis) (s : PageStep) :
    (p.step s).turns = p.turns ++ s.names.removeAll p.turns := by
  cases s with
  | populate scripts => exact p.populate_turns scripts
  | next =>
    rw [step, PageStep.names, List.removeAll, List.filter_nil, List.append_nil]
    cases hqueue : p.queue with
    | nil => rw [next_of_empty hqueue]
    | cons script rest =>
      obtain ⟨hrest, hattempted, _⟩ := next_of_cons hqueue
      rw [turns, turns, hrest, hattempted, hqueue, List.append_assoc]
      rfl

theorem run_turns (page : String) (withAnonymous : Bool) (steps : List PageStep) :
    ((empty page withAnonymous).run steps).turns = inTurn (steps.map PageStep.names) := by
  induction steps using List.reverseRecOn with
  | nil => rfl
  | append_singleton steps s ih =>
    rw [run, List.foldl_concat, ← run, step_turns, ih, List.map_append, List.map_singleton, inTurn_concat]

/-- Every turn leaves a report or a failure behind, and both are in the order of the turns. -/
structure Accounted (p : PageAnalysis) : Prop where
  reports : (p.reports.map (·.file)).Sublist p.attempted
  failures : (p.failures.map (·.file)).Sublist p.attempted
  all : (p.reports.map (·.file) ++ p.failures.map (·.file)).Perm p.attempted

theorem Accounted.next {p : PageAnalysis} (h : p.Accounted) : p.next.1.Accounted := by
  cases hqueue : p.queue with
  | nil =>
    rw [next_of_empty hqueue]
    exact h
  | cons script rest =>
    have hlater {files : List String} (hfiles : files.Sublist p.attempted) :
        files.Sublist (p.attempted ++ [script.name]) := hfiles.trans (List.sublist_append_left _ _)
    cases hrefusal : script.refusal? p.withAnonymous with
    | some e =>
      rw [next_of_refusal hqueue hrefusal]
      refine ⟨hlater h.reports, ?_, ?_⟩
      · rw [List.map_append]
        exact h.failures.append (.refl _)
      · rw [List.map_append, ← List.append_assoc]
        exact h.all.append_right _
    | none =>
      obtain ⟨tree, report, hok, hfile⟩ := FunctionTree.analyse_of_analysable hrefusal p.tree
      rw [next_of_analysed hqueue hok]
      have hreports : (p.reports ++ [report]).map (·.file) = p.reports.map (·.file) ++ [script.name] := by
        rw [List.map_append, List.map_singleton, hfile]
      refine ⟨?_, hlater h.failures, ?_⟩
      · rw [hreports]
        exact h.reports.append (.refl _)
      · rw [hreports, List.append_assoc]
        refine (List.Perm.append_left _ List.perm_append_comm).trans ?_
        rw [← List.append_assoc]
        exact h.all.append_right _

theorem Accounted.step {p : PageAnalysis} (h : p.Accounted) (s : PageStep) : (p.step s).Accounted := by
  cases s with
  | next => exact h.next
  | populate scripts =>
    rw [PageAnalysis.step, populate]
    split
    · exact h
    · exact ⟨h.reports, h.failures, h.all⟩

theorem Accounted.run {p : PageAnalysis} (h : p.Accounted) (steps : List PageStep) :
    (p.run steps).Accounted := by
  induction steps generalizing p with
  | nil => exact h
  | cons s steps ih => exact ih (h.step s)

/-- However the steps of a page follow each other, names have their first turns in the order in which they
    have been listed: the first list first, and in the order of the page within a list. A name that an
    earlier list has is not queued again, whether it waits or has had its turn, with or without success. So
    no name has two turns as long as no list has it twice. Otherwise it has as many turns as it has
    entries in the first list with it. -/
theorem run_inTurn (page : String) (withAnonymous : Bool) (steps : List PageStep) :
    let p := (empty page withAnonymous).run steps
    let listed := steps.map PageStep.names
    p.attempted ++ p.queue.map (·.name) = inTurn listed ∧
      (∀ name, (inTurn listed).count name = ((listed.find? (·.contains name)).getD []).count name) ∧
      p.attempted.eraseDups <+: listed.flatten.eraseDups ∧
      p.Accounted ∧
      ((∀ names ∈ listed, names.Nodup) →
        p.attempted.Nodup ∧ p.attempted <+: listed.flatten.eraseDups) := by
  intro p listed
  have hturns : p.attempted ++ p.queue.map (·.name) = inTurn listed := run_turns page withAnonymous steps
  have hprefix : p.attempted.eraseDups <+: listed.flatten.eraseDups := by
    rw [← eraseDups_inTurn, ← hturns, List.eraseDups_append]
    exact List.prefix_append _ _
  have hfresh : (empty page withAnonymous).Accounted := ⟨List.Sublist.slnil, List.Sublist.slnil, .nil⟩
  refine ⟨hturns, count_inTurn listed, hprefix, hfresh.run steps, fun hlists => ?_⟩
  have hnodup : p.attempted.Nodup := by
    have hall := inTurn_nodup hlists
    rw [← hturns] at hall
    exact (List.nodup_append.mp hall).1
  exact ⟨hnodup, eraseDups_of_nodup hnodup ▸ hprefix⟩

end PageAnalysis

namespace Sample

/-- Two scripts are queued, one of them again while the other has had its turn, and all are analysed. -/
def overlapping : List PageStep := [
  .populate [⟨"a.js", "f()"⟩, ⟨"b.js", "f("⟩], .next,
  .populate [⟨"b.js", "f("⟩, ⟨"a.js", "f()"⟩, ⟨"c.js", ""⟩], .next, .next]

/-- One list has the same script twice. -/
def doubled : List PageStep := [.populate [⟨"a.js", ""⟩, ⟨"a.js", ""⟩], .next, .next]

end Sample

namespace PageAnalysis

theorem run_inTurn_overlapping :
    ((empty "page" false).run Sample.overlapping).attempted.Nodup ∧
      ((empty "page" false).run Sample.overlapping).attempted <+: ["a.js", "b.js", "c.js"] := by
  have hlists : ∀ names ∈ Sample.overlapping.map PageStep.names, names.Nodup := by decide
  have horder : (Sample.overlapping.map PageStep.names).flatten.eraseDups = ["a.js", "b.js", "c.js"] := by
    decide
  rw [← horder]
  exact (run_inTurn "page" false Sample.overlapping).2.2.2.2 hlists

theorem run_doubled : ((empty "page" false).run Sample.doubled).attempted = ["a.js", "a.js"] ∧
    ((empty "page" false).run Sample.doubled).reports.map (·.file) = ["a.js", "a.js"] := by
  decide +kernel

end PageAnalysis
end PageProbe
