import Mathlib.Data.List.Infix
import PageProbe.Plugin.Registry

namespace PageProbe

/-- What a fresh plugin tells of itself. The checks are missing when it breaks down over them. -/
structure Profile where
  name : String
  description : String
  checks : Option Checks

/-- A plugin is fit that has run at least one check, and whose checks all hold. -/
def Profile.Fit (p : Profile) : Prop :=
  ∃ checks, p.checks = some checks ∧ checks ≠ [] ∧ ∀ e ∈ checks, e.2 = true

theorem Profile.fit_iff (p : Profile) : p.Fit ↔ ∃ checks, p.checks = some checks ∧ checks.passed = true := by
  simp [Fit, Checks.passed]

/-- Why a plugin that is not fit is rejected. -/
def Profile.reason (p : Profile) (id : String) : RejectionReason :=
  match p.checks with
  | some checks => .failedChecks checks.failed
  | none => .worker (.stopped id)

namespace Catalog

/-- The ids of all modules of a kind. -/
def ids (c : Catalog) : ModuleKind → List String
  | .generation => c.generators.map (·.1)
  | .detection => c.detectors.map (·.1)
  | .brain => c.brains.map (·.1)

/-- The ids of every kind are in ascending order, each once. -/
def Ordered (c : Catalog) : Prop := ∀ kind, (c.ids kind).Pairwise (· < ·)

/-- What the plugin of a module tells of itself. -/
def profile? (c : Catalog) (kind : ModuleKind) (id : String) : Option Profile :=
  match kind with
  | .generation => (c.generators.lookup id).map fun make =>
      let g := make (c.seedAt 0)
      ⟨g.name, g.description, g.check []⟩
  | .detection => (c.detectors.lookup id).map fun d => ⟨d.name, d.description, d.check⟩
  | .brain => (c.brains.lookup id).map fun b => ⟨b.name, b.description, b.check⟩

theorem isSome_profile?_iff {c : Catalog} {kind : ModuleKind} {id : String} :
    (c.profile? kind id).isSome = true ↔ id ∈ c.ids kind := by
  cases kind <;> simp [profile?, ids, List.lookup_isSome_iff]

theorem mem_map_put {id other : String} {plugin : α} {plugins : List (String × α)} :
    other ∈ (put id plugin plugins).map (·.1) ↔ other = id ∨ other ∈ plugins.map (·.1) := by
  induction plugins with
  | nil => simp [put]
  | cons p plugins ih =>
    rw [put]
    split_ifs with hsame
    · simp [hsame]
    · simp
    · simp only [List.map_cons, List.mem_cons, ih]
      tauto

/-- A module that is put into an ordered list keeps it ordered. -/
theorem pairwise_put {id : String} {plugin : α} {plugins : List (String × α)}
    (h : (plugins.map (·.1)).Pairwise (· < ·)) : ((put id plugin plugins).map (·.1)).Pairwise (· < ·) := by
  induction plugins with
  | nil => exact List.pairwise_singleton _ _
  | cons p plugins ih =>
    obtain ⟨hfirst, hrest⟩ := List.pairwise_cons.mp h
    rw [put]
    split_ifs with hsame hless
    · exact List.pairwise_cons.mpr ⟨hsame ▸ hfirst, hrest⟩
    · refine List.pairwise_cons.mpr ⟨fun other hother => ?_, h⟩
      rcases List.mem_cons.mp hother with rfl | hother
      · exact hless
      · exact String.lt_trans hless (hfirst other hother)
    · refine List.pairwise_cons.mpr ⟨fun other hother => ?_, ih hrest⟩
      rcases mem_map_put.mp hother with rfl | hother
      · exact Std.lt_of_le_of_ne (String.not_lt.mp hless) (Ne.symm hsame)
      · exact hfirst other hother

theorem ordered_empty (seed : Nat) : (empty seed).Ordered := fun kind => by cases kind <;> exact .nil

theorem Ordered.addGenerator {c : Catalog} (h : c.Ordered) (id : String) (make : Nat → Generator) :
    (c.addGenerator id make).Ordered := fun kind => by
  cases kind with
  | generation => exact pairwise_put (h .generation)
  | detection => exact h .detection
  | brain => exact h .brain

theorem Ordered.addDetector {c : Catalog} (h : c.Ordered) (id : String) (detector : Detector) :
    (c.addDetector id detector).Ordered := fun kind => by
  cases kind with
  | detection => exact pairwise_put (h .detection)
  | generation => exact h .generation
  | brain => exact h .brain

theorem Ordered.addBrain {c : Catalog} (h : c.Ordered) (id : String) (brain : Brain) :
    (c.addBrain id brain).Ordered := fun kind => by
  cases kind with
  | brain => exact pairwise_put (h .brain)
  | generation => exact h .generation
  | detection => exact h .detection

end Catalog

namespace ModuleRegistry

variable {c : Catalog} {kind : ModuleKind} {id : String} {p : Profile}

/-- A worker answers the check of its plugin, or stops over it. -/
theorem ask_checkIntegrity (h : c.profile? kind id = some p) (deadline : Nat) :
    ∃ worker, Worker.start c kind id 0 = .ok worker ∧
      (worker.ask (.checkIntegrity id) deadline).2 =
        match p.checks with
        | some checks => .ok (.integrity ⟨id, checks, ⟨p.name, p.description⟩⟩)
        | none => .error (.stopped id) := by
  cases kind with
  | generation =>
    obtain ⟨make, hmake, rfl⟩ := Option.map_eq_some_iff.mp h
    refine ⟨.generator (GeneratorWorker.start id (make (c.seedAt 0))), ?_, ?_⟩
    · rw [Worker.start, Catalog.generator, hmake]
      rfl
    · simp only [Worker.ask, Worker.alive, GeneratorWorker.start, Worker.handle, GeneratorWorker.handle]
      cases (make (c.seedAt 0)).check [] <;> rfl
  | detection =>
    obtain ⟨d, hd, rfl⟩ := Option.map_eq_some_iff.mp h
    refine ⟨.detector (DetectorWorker.start id d), ?_, ?_⟩
    · rw [Worker.start, Catalog.detector, hd]
      rfl
    · simp only [Worker.ask, Worker.alive, DetectorWorker.start, Worker.handle, DetectorWorker.handle]
      cases d.check <;> rfl
  | brain =>
    obtain ⟨b, hb, rfl⟩ := Option.map_eq_some_iff.mp h
    refine ⟨.brain (BrainWorker.start id b c), ?_, ?_⟩
    · rw [Worker.start, Catalog.brain, hb]
      rfl
    · simp only [Worker.ask, Worker.alive, BrainWorker.start, Worker.handle, BrainWorker.handle]
      cases b.check <;> rfl

theorem examine_fit (h : c.profile? kind id = some p) (hfit : p.Fit) :
    examine c kind id = .ok ⟨id, p.name, p.description⟩ := by
  obtain ⟨checks, hchecks, hpassed⟩ := p.fit_iff.mp hfit
  obtain ⟨worker, hstart, hask⟩ := ask_checkIntegrity h checkDeadline
  rw [hchecks] at hask
  simp [examine, hstart, hask, IntegrityReport.passed, hpassed]

theorem examine_unfit (h : c.profile? kind id = some p) (hfit : ¬ p.Fit) :
    examine c kind id = .error (p.reason id) := by
  obtain ⟨worker, hstart, hask⟩ := ask_checkIntegrity h checkDeadline
  rw [Profile.fit_iff, not_exists] at hfit
  cases hchecks : p.checks with
  | none =>
    rw [hchecks] at hask
    simp [examine, hstart, hask, Profile.reason, hchecks]
  | some checks =>
    rw [hchecks] at hask
    have hpassed : checks.passed = false := Bool.eq_false_iff.mpr fun hpassed => hfit checks ⟨hchecks, hpassed⟩
    simp [examine, hstart, hask, Profile.reason, hchecks, IntegrityReport.passed, hpassed]

theorem examine_unknown (h : c.profile? kind id = none) : examine c kind id = .error (.unknown ⟨kind, id⟩) := by
  cases kind
  all_goals
    have hnone := Option.map_eq_none_iff.mp h
    simp [examine, Worker.start, Catalog.generator, Catalog.detector, Catalog.brain, hnone, Except.map]

/-- The rejection of a module, if it comes to that. -/
def rejection? (c : Catalog) (kind : ModuleKind) (id : String) : Option Rejection :=
  match examine c kind id with
  | .ok _ => none
  | .error reason => some ⟨id, kind, reason⟩

theorem index_descriptors (c : Catalog) (kind : ModuleKind) :
    (index c).descriptors kind = (c.ids kind).filterMap fun id => (examine c kind id).toOption := by
  cases kind <;> simp [index, descriptors, sort, Catalog.ids, List.filterMap_map]

theorem sort_rejected (c : Catalog) (kind : ModuleKind) (ids : List String) :
    (sort c kind ids).2 = ids.filterMap (rejection? c kind) := by
  simp only [sort, List.filterMap_map]
  refine List.filterMap_congr fun id _ => ?_
  cases h : examine c kind id <;> simp [rejection?, h]

/-- Modules are rejected kind by kind. -/
theorem index_rejected (c : Catalog) :
    (index c).rejected =
      [ModuleKind.generation, .detection, .brain].flatMap fun kind => (c.ids kind).filterMap (rejection? c kind) := by
  simp only [index, sort_rejected, List.flatMap_cons, List.flatMap_nil, List.append_nil, List.append_assoc]
  rfl

/-- Where a module is: among the descriptors of its kind, and among the rejections. -/
def placement (r : ModuleRegistry) (kind : ModuleKind) (id : String) : List ModuleDescriptor × List Rejection :=
  ((r.descriptors kind).filter (·.moduleId == id), r.rejected.filter fun e => e.kind == kind && e.moduleId == id)

/-- Of results that tell from which of several different things they come, those of one thing are its own. -/
theorem filter_filterMap_key {α β : Type} [DecidableEq α] {f : α → Option β} {key : β → α} {as : List α}
    (has : as.Nodup) (hkey : ∀ a b, f a = some b → key b = a) (a : α) :
    (as.filterMap f).filter (key · == a) = if a ∈ as then (f a).toList else [] := by
  induction as with
  | nil => rfl
  | cons first rest ih =>
    obtain ⟨hfirst, hrest⟩ := List.nodup_cons.mp has
    cases hf : f first with
    | none =>
      rw [List.filterMap_cons_none hf, ih hrest]
      by_cases ha : a = first
      · subst ha
        simp [hfirst, hf]
      · simp [ha]
    | some b =>
      rw [List.filterMap_cons_some hf]
      by_cases ha : a = first
      · subst ha
        simp [hkey a b hf, ih hrest, hfirst, hf]
      · simp [hkey first b hf, ih hrest, ha, Ne.symm ha]

theorem moduleId_of_examine {d : ModuleDescriptor} (h : (examine c kind id).toOption = some d) :
    d.moduleId = id := by
  cases hprofile : c.profile? kind id with
  | none =>
    rw [examine_unknown hprofile] at h
    cases h
  | some p =>
    by_cases hfit : p.Fit
    · rw [examine_fit hprofile hfit] at h
      cases h
      rfl
    · rw [examine_unfit hprofile hfit] at h
      cases h

theorem of_rejection? {e : Rejection} (h : rejection? c kind id = some e) : e.moduleId = id ∧ e.kind = kind := by
  rw [rejection?] at h
  split at h
  · cases h
  · cases h
    exact ⟨rfl, rfl⟩

/-- The rejections of a kind are those of its modules. -/
theorem filter_rejected (c : Catalog) (kind : ModuleKind) :
    (index c).rejected.filter (·.kind == kind) = (c.ids kind).filterMap (rejection? c kind) := by
  have hkinds (other : ModuleKind) : ((c.ids other).filterMap (rejection? c other)).filter (·.kind == kind) =
      if other = kind then (c.ids other).filterMap (rejection? c other) else [] := by
    have hkind : ∀ e ∈ (c.ids other).filterMap (rejection? c other), e.kind = other := by
      intro e he
      obtain ⟨id, -, hid⟩ := List.mem_filterMap.mp he
      exact (of_rejection? hid).2
    split_ifs with h
    · exact List.filter_eq_self.mpr fun e he => by simp [hkind e he, h]
    · exact List.filter_eq_nil_iff.mpr fun e he => by simp [hkind e he, h]
  rw [index_rejected, List.filter_flatMap]
  simp only [hkinds, List.flatMap_cons, List.flatMap_nil, List.append_nil]
  cases kind <;> simp

/-- Where a module is depends on what comes of its own check only. -/
theorem placement_eq (hc : c.Ordered) (kind : ModuleKind) (id : String) :
    (index c).placement kind id =
      if id ∈ c.ids kind then ((examine c kind id).toOption.toList, (rejection? c kind id).toList) else ([], []) := by
  have hnodup : (c.ids kind).Nodup := (hc kind).imp fun h => String.ne_of_lt h
  have hrejected : (index c).rejected.filter (fun e => e.kind == kind && e.moduleId == id) =
      ((c.ids kind).filterMap (rejection? c kind)).filter (·.moduleId == id) := by
    rw [← filter_rejected, List.filter_filter]
    simp only [Bool.and_comm]
  rw [placement, index_descriptors, hrejected, filter_filterMap_key hnodup fun a b h => moduleId_of_examine h,
    filter_filterMap_key hnodup fun a b h => (of_rejection? h).1]
  split_ifs <;> rfl

theorem placement_fit (hc : c.Ordered) (h : c.profile? kind id = some p) (hfit : p.Fit) :
    (index c).placement kind id = ([⟨id, p.name, p.description⟩], []) := by
  have hid : id ∈ c.ids kind := Catalog.isSome_profile?_iff.mp (h ▸ rfl)
  rw [placement_eq hc, if_pos hid, rejection?, examine_fit h hfit]
  rfl

theorem placement_unfit (hc : c.Ordered) (h : c.profile? kind id = some p) (hfit : ¬ p.Fit) :
    (index c).placement kind id = ([], [⟨id, kind, p.reason id⟩]) := by
  have hid : id ∈ c.ids kind := Catalog.isSome_profile?_iff.mp (h ▸ rfl)
  rw [placement_eq hc, if_pos hid, rejection?, examine_unfit h hfit]
  rfl

theorem placement_absent (hc : c.Ordered) (h : id ∉ c.ids kind) : (index c).placement kind id = ([], []) := by
  rw [placement_eq hc, if_neg h]

theorem descriptors_ascending (hc : c.Ordered) (kind : ModuleKind) :
    ((index c).descriptors kind).Pairwise (·.moduleId < ·.moduleId) := by
  rw [index_descriptors, List.pairwise_filterMap]
  refine (hc kind).imp fun {a b} h d hd e he => ?_
  rw [moduleId_of_examine hd, moduleId_of_examine he]
  exact h

/-- A module of a catalog is in one place and once: among the descriptors of its kind, with the name and the
    description that its plugin has, if the plugin is fit, and if not among the rejections. Nothing is placed
    that the catalog does not have. The descriptors are in the order of their ids, and a module stays where it
    is whatever becomes of the other modules. -/
theorem index_placement (hc : c.Ordered) :
    (∀ kind, ((index c).descriptors kind).Pairwise (·.moduleId < ·.moduleId)) ∧
    (∀ kind, ∀ id ∈ c.ids kind, ∃ p, c.profile? kind id = some p ∧
      (p.Fit ∧ (index c).placement kind id = ([⟨id, p.name, p.description⟩], []) ∨
        ¬ p.Fit ∧ (index c).placement kind id = ([], [⟨id, kind, p.reason id⟩]))) ∧
    (∀ kind, ∀ id ∉ c.ids kind, (index c).placement kind id = ([], [])) ∧
    ∀ other : Catalog, other.Ordered → ∀ kind id, other.profile? kind id = c.profile? kind id →
      (index other).placement kind id = (index c).placement kind id := by
  refine ⟨descriptors_ascending hc, fun kind id hid => ?_, fun kind id hid => placement_absent hc hid,
    fun other hother kind id hsame => ?_⟩
  · obtain ⟨p, hp⟩ := Option.isSome_iff_exists.mp (Catalog.isSome_profile?_iff.mpr hid)
    by_cases hfit : p.Fit
    · exact ⟨p, hp, .inl ⟨hfit, placement_fit hc hp hfit⟩⟩
    · exact ⟨p, hp, .inr ⟨hfit, placement_unfit hc hp hfit⟩⟩
  · cases hprofile : c.profile? kind id with
    | none =>
      have habsent {c : Catalog} (h : c.profile? kind id = none) : id ∉ c.ids kind := fun hid => by
        have hsome := Catalog.isSome_profile?_iff.mpr hid
        rw [h] at hsome
        cases hsome
      rw [placement_absent hother (habsent (hsame.trans hprofile)), placement_absent hc (habsent hprofile)]
    | some p =>
      by_cases hfit : p.Fit
      · rw [placement_fit hother (hsame.trans hprofile) hfit, placement_fit hc hprofile hfit]
      · rw [placement_unfit hother (hsame.trans hprofile) hfit, placement_unfit hc hprofile hfit]

end ModuleRegistry

namespace Sample

/-- A generator that breaks down over its checks. -/
def breakingGenerator : Generator where
  name := "breaking"
  description := "breaks down"
  compatibleBrains := []
  check := fun _ => none
  generate := fun _ _ _ => none

/-- A detector one of whose checks does not hold. -/
def failingDetector : Detector where
  name := "failing"
  description := "fails"
  check := some [("name", true), ("ready", false)]
  judge := some

/-- A brain whose checks hold. -/
def passingBrain : Brain where
  name := "passing"
  description := "passes"
  compatible := []
  check := some [("name", true)]
  plan := fun _ _ => some []
  assemble := fun _ _ => some []

/-- A catalog with one id for a module of every kind. -/
def mixedCatalog : Catalog :=
  (((Catalog.empty 0).addGenerator "m" fun _ => breakingGenerator).addDetector "m" failingDetector).addBrain
    "m" passingBrain

theorem mixedCatalog_ordered : mixedCatalog.Ordered :=
  (((Catalog.ordered_empty 0).addGenerator _ _).addDetector _ _).addBrain _ _

end Sample

namespace ModuleRegistry

theorem index_placement_mixed : Sample.mixedCatalog.Ordered ∧
    (index Sample.mixedCatalog).placement .generation "m" = ([], [⟨"m", .generation, .worker (.stopped "m")⟩]) ∧
    (index Sample.mixedCatalog).placement .detection "m" = ([], [⟨"m", .detection, .failedChecks ["ready"]⟩]) ∧
    (index Sample.mixedCatalog).placement .brain "m" = ([⟨"m", "passing", "passes"⟩], []) ∧
    (index Sample.mixedCatalog).placement .brain "n" = ([], []) := by
  obtain ⟨-, hplaced, habsent, -⟩ := index_placement Sample.mixedCatalog_ordered
  refine ⟨Sample.mixedCatalog_ordered, ?_, ?_, ?_, habsent .brain "n" (by decide)⟩
  · obtain ⟨p, hp, ⟨⟨checks, hchecks, -⟩, -⟩ | ⟨-, hplace⟩⟩ := hplaced .generation "m" (by decide)
    · cases hp
      cases hchecks
    · cases hp
      exact hplace
  · obtain ⟨p, hp, ⟨⟨checks, hchecks, -, hall⟩, -⟩ | ⟨-, hplace⟩⟩ := hplaced .detection "m" (by decide)
    · cases hp
      cases hchecks
      exact absurd hall (by decide)
    · cases hp
      exact hplace
  · obtain ⟨p, hp, ⟨-, hplace⟩ | ⟨hunfit, -⟩⟩ := hplaced .brain "m" (by decide)
    · cases hp
      exact hplace
    · cases hp
      exact absurd ⟨[("name", true)], rfl, by decide, by decide⟩ hunfit

end ModuleRegistry
end PageProbe
