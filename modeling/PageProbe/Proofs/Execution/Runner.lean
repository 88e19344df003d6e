import PageProbe.Execution.Runner
import PageProbe.Proofs.Injection.Serving

namespace PageProbe
namespace Runner

/-- The injector sees a runner fetch the resources of the page one after another. The program reads a line
    for each of them, as it has come out of the injector, and reports with what it prints. -/
theorem run_launch {r : Runner} {programs : Programs}
    {program : List String → List String → List PrintedLine} (hknown : programs r.program = some program)
    (resources : List PageResource) (size : Nat) (i : Injector) :
    let served := i.serve size resources
    ((r.launch programs resources size).launch ()).run i = (served.1, (),
      .reporting ((program r.args (List.zipWith PageResource.servedLine resources served.2)).filterMap
        PrintedLine.report?)) := by
  intro served
  simp only [launch, hknown]
  rw [Fetching.run_fetchBodies, List.nil_append]
  rfl

/-- Without its program a runner fetches nothing. -/
theorem run_launch_unknown {r : Runner} {programs : Programs} (hunknown : programs r.program = none)
    (resources : List PageResource) (size : Nat) (i : Injector) :
    ((r.launch programs resources size).launch ()).run i =
      (i, (), .failed ("failed to start runner " ++ r.program)) := by
  simp only [launch, hunknown]
  rfl

end Runner

/-- What counts for a tuple is the first line that a program prints with a report about the tuple in time.
    Lines without a report may stand before it, and so may reports that are late or about other tuples. -/
theorem Launched.reportOf_printed {printed : List PrintedLine} {uuid : String} {deadline : Nat}
    {report : ExecutionReport} :
    (Launched.reporting (printed.filterMap PrintedLine.report?)).reportOf uuid deadline = some report ↔
      ∃ front p back, printed = front ++ p :: back ∧ ExecutionReport.ofLine? p.text = some report ∧
        report.uniqueId = uuid ∧ p.time ≤ deadline ∧
        ∀ q ∈ front, ∀ other, ExecutionReport.ofLine? q.text = some other → other.uniqueId = uuid →
          deadline < q.time := by
  have hcounts (p : PrintedLine) :
      (p.report?.any fun r => r.report.uniqueId == uuid && decide (r.time ≤ deadline)) = true ↔
        ∃ told, ExecutionReport.ofLine? p.text = some told ∧ told.uniqueId = uuid ∧ p.time ≤ deadline := by
    simp [PrintedLine.report?, Option.any_map, Option.any_eq_true]
  rw [reportOf, List.find?_filterMap, Option.map_eq_some_iff]
  constructor
  · rintro ⟨timed, hfound, rfl⟩
    obtain ⟨p, hp, htold⟩ := Option.bind_eq_some_iff.mp hfound
    obtain ⟨hthere, front, back, rfl, hfront⟩ := List.find?_eq_some_iff_append.mp hp
    obtain ⟨told, hread, hid, htime⟩ := (hcounts p).mp hthere
    obtain ⟨_, hread', rfl⟩ := Option.map_eq_some_iff.mp htold
    obtain rfl := Option.some.inj (hread.symm.trans hread')
    refine ⟨front, p, back, rfl, hread, hid, htime, fun q hq other hother hotherId => ?_⟩
    refine Nat.lt_of_not_le fun hotherTime => ?_
    have hearlier := (hcounts q).mpr ⟨other, hother, hotherId, hotherTime⟩
    simpa [hearlier] using hfront q hq
  · rintro ⟨front, p, back, rfl, hread, hid, htime, hfront⟩
    have hfind : (front ++ p :: back).find? (fun a =>
        a.report?.any fun r => r.report.uniqueId == uuid && decide (r.time ≤ deadline)) = some p := by
      refine List.find?_eq_some_iff_append.mpr
        ⟨(hcounts p).mpr ⟨report, hread, hid, htime⟩, front, back, rfl, fun q hq => ?_⟩
      rw [Bool.not_eq_true', ← Bool.not_eq_true, hcounts q]
      rintro ⟨other, hother, hotherId, hotherTime⟩
      exact absurd hotherTime (Nat.not_le_of_lt (hfront q hq other hother hotherId))
    exact ⟨⟨p.time, report⟩, by rw [hfind, Option.bind_some, PrintedLine.report?, hread]; rfl, rfl⟩

end PageProbe
