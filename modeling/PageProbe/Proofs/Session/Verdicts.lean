import Mathlib.Data.List.Induction
import PageProbe.Proofs.Session.Arguments

namespace PageProbe

namespace FuzzRecord

/-- The last of some answers with an id. -/
def lastFor? (judged : List FuzzRecord) (uuid : String) : Option FuzzRecord :=
  judged.reverse.find? (·.uuid == uuid)

/-- The record with what the last answer for it says. Without one it stays as it was. -/
def withVerdict (judged : List FuzzRecord) (r : FuzzRecord) : FuzzRecord :=
  { r with detection := ((lastFor? judged r.uuid).map (·.detection)).getD r.detection }

theorem withVerdict_concat (judged : List FuzzRecord) (j r : FuzzRecord) :
    r.withVerdict (judged ++ [j]) =
      if r.uuid = j.uuid then { r.withVerdict judged with detection := j.detection }
      else r.withVerdict judged := by
  simp only [withVerdict, lastFor?, List.reverse_append, List.reverse_singleton, List.singleton_append,
    List.find?_cons]
  by_cases hid : r.uuid = j.uuid
  · simp [hid]
  · have hother : (j.uuid == r.uuid) = false := beq_eq_false_iff_ne.mpr (Ne.symm hid)
    rw [if_neg hid, hother]

/-- Among answers with different ids each is the last with its own. -/
theorem lastFor?_of_mem {judged : List FuzzRecord} (hids : (judged.map (·.uuid)).Nodup) {j : FuzzRecord}
    (hj : j ∈ judged) : lastFor? judged j.uuid = some j := by
  cases hlast : lastFor? judged j.uuid with
  | none => simpa using List.find?_eq_none.mp hlast j (List.mem_reverse.mpr hj)
  | some last =>
    have hmem : last ∈ judged := List.mem_reverse.mp (List.mem_of_find?_eq_some hlast)
    have hsame : last.uuid = j.uuid := by simpa using List.find?_some hlast
    rw [List.inj_on_of_nodup_map hids hmem hj hsame]

end FuzzRecord

open FuzzRecord

namespace Dispatcher

/-- Where ids differ, the first record with an id is the only one. -/
theorem giveVerdict_eq_map {records : List FuzzRecord} (hids : (records.map (·.uuid)).Nodup)
    (j : FuzzRecord) : giveVerdict j records = records.map fun r =>
      if r.uuid = j.uuid then { r with detection := j.detection } else r := by
  induction records with
  | nil => rfl
  | cons r rest ih =>
    obtain ⟨hr, hrest⟩ := List.nodup_cons.mp hids
    rw [giveVerdict, List.map_cons]
    by_cases hid : r.uuid = j.uuid
    · have hothers : rest.map (fun r => if r.uuid = j.uuid then { r with detection := j.detection } else r) =
          rest := by
        refine (List.map_congr_left fun r' hr' => if_neg fun hid' => hr ?_).trans (List.map_id rest)
        exact List.mem_map.mpr ⟨r', hr', hid'.trans hid.symm⟩
      rw [if_pos hid, if_pos hid, hothers]
    · rw [if_neg hid, if_neg hid, ih hrest]

theorem merge_eq_map {records : List FuzzRecord} (hids : (records.map (·.uuid)).Nodup)
    (judged : List FuzzRecord) : merge records judged = records.map (·.withVerdict judged) := by
  induction judged using List.reverseRecOn with
  | nil => exact (List.map_id records).symm
  | append_singleton judged j ih =>
    have hsame : ((records.map (·.withVerdict judged)).map (·.uuid)) = records.map (·.uuid) := by
      rw [List.map_map]
      rfl
    have hstep : merge records (judged ++ [j]) = giveVerdict j (merge records judged) :=
      List.foldl_concat _ _ _ _
    rw [hstep, ih, giveVerdict_eq_map (hsame ▸ hids), List.map_map]
    exact List.map_congr_left fun r _ => (withVerdict_concat judged j r).symm

/-- Records that come back with nothing but verdicts added are taken as they come. -/
theorem merge_of_unjudged {records judged : List FuzzRecord} (hids : (records.map (·.uuid)).Nodup)
    (hsame : judged.map unjudged = records.map unjudged) : merge records judged = judged := by
  have huuids : judged.map (·.uuid) = records.map (·.uuid) := by
    have hkept := congrArg (List.map (·.uuid)) hsame
    rwa [List.map_map, List.map_map] at hkept
  have hlength : records.length = judged.length := by
    have hkept := congrArg List.length hsame
    rwa [List.length_map, List.length_map, eq_comm] at hkept
  rw [merge_eq_map hids]
  refine List.ext_getElem (by rwa [List.length_map]) fun i hi hi' => ?_
  have hi : i < records.length := by rwa [List.length_map] at hi
  have hthis : judged[i].unjudged = records[i].unjudged := by
    have hget := congrArg (·[i]?) hsame
    simpa [hi, hi'] using hget
  have hid : judged[i].uuid = records[i].uuid := by
    have hkept := congrArg FuzzRecord.uuid hthis
    exact hkept
  have hlast : lastFor? judged records[i].uuid = some judged[i] := by
    rw [← hid]
    exact lastFor?_of_mem (huuids ▸ hids) (List.getElem_mem hi')
  rw [List.getElem_map, withVerdict, hlast]
  exact congrArg (fun r : FuzzRecord => { r with detection := judged[i].detection }) hthis.symm

/-- When a detector answers with records, nothing of the dispatcher changes but its state and the
    detector. -/
theorem run_judge {detector : Worker} {records judged : List FuzzRecord} {d : Dispatcher}
    (hanswer : (detector.ask (.detect records) d.stageDeadline).2 = .ok (.detected judged)) :
    (judge detector records).run.run d = (.ok (merge records judged), { d with
      state := .awaitingVerdicts
      detector := some (detector.ask (.detect records) d.stageDeadline).1 }) := by
  rw [judge, run_modify_bind, run_get_bind]
  dsimp only
  rcases hask : detector.ask (.detect records) d.stageDeadline with ⟨worker, answer⟩
  rw [hask] at hanswer
  obtain rfl : answer = .ok (.detected judged) := hanswer
  rfl

end Dispatcher

namespace Detector

variable {info : FuzzRecord → Bool → Option String}

/-- What becomes of a record that gets a flag, or none. -/
def Flagged (info : FuzzRecord → Bool → Option String) (r r' : FuzzRecord) : Option Bool → Prop
  | some flag => ∃ text, info r flag = some text ∧ r' = { r with detection := some ⟨flag, text⟩ }
  | none => r' = r

/-- Nothing but verdicts is added to records. -/
theorem attach_unjudged {found : List Bool} {records judged : List FuzzRecord}
    (h : attach info found records = some judged) : judged.map unjudged = records.map unjudged := by
  induction records generalizing found judged with
  | nil =>
    cases found <;> cases h <;> rfl
  | cons r rest ih =>
    cases found with
    | nil =>
      cases h
      rfl
    | cons flag found =>
      rw [attach] at h
      obtain ⟨text, -, h⟩ := Option.bind_eq_some_iff.mp h
      obtain ⟨more, hmore, h⟩ := Option.bind_eq_some_iff.mp h
      obtain rfl := Option.some.inj h
      exact congrArg (r.unjudged :: ·) (ih hmore)

/-- Flags go to the records in order, as many as there are of both. -/
theorem attach_flagged {found : List Bool} {records : List FuzzRecord}
    (hinfo : ∀ (i : Nat) (r : FuzzRecord) (flag : Bool),
      records[i]? = some r → found[i]? = some flag → (info r flag).isSome = true) :
    ∃ judged, attach info found records = some judged ∧ judged.length = records.length ∧
      ∀ (i : Nat) (r : FuzzRecord), records[i]? = some r →
        ∃ r' : FuzzRecord, judged[i]? = some r' ∧ Flagged info r r' found[i]? := by
  induction records generalizing found with
  | nil => exact ⟨[], by cases found <;> rfl, rfl, fun i r h => by cases h⟩
  | cons r rest ih =>
    cases found with
    | nil => exact ⟨r :: rest, rfl, rfl, fun i r' h => ⟨r', h, rfl⟩⟩
    | cons flag found =>
      obtain ⟨text, htext⟩ := Option.isSome_iff_exists.mp (hinfo 0 r flag rfl rfl)
      obtain ⟨judged, hjudged, hlength, hflagged⟩ := ih fun i => hinfo (i + 1)
      refine ⟨{ r with detection := some ⟨flag, text⟩ } :: judged, ?_, congrArg (· + 1) hlength, ?_⟩
      · rw [attach, htext, hjudged]
        rfl
      · intro i r' hr'
        cases i with
        | zero =>
          obtain rfl : r = r' := Option.some.inj hr'
          exact ⟨_, rfl, text, htext, rfl⟩
        | succ i => exact hflagged i r' hr'

end Detector

/-- A detector that gives flags answers with the records that they are attached to. -/
theorem DetectorWorker.ask_ofFlags (id name description : String) {flags : List FuzzRecord → Option (List Bool)}
    {info : FuzzRecord → Bool → Option String} {found : List Bool} {records judged : List FuzzRecord}
    (hflags : flags records = some found) (hjudged : Detector.attach info found records = some judged)
    (deadline : Nat) :
    ((Worker.detector (start id (Detector.ofFlags name description flags info))).ask (.detect records)
      deadline).2 = .ok (.detected judged) := by
  have hjudge : (Detector.ofFlags name description flags info).judge records = some judged := by
    change (flags records).bind _ = _
    rw [hflags, Option.bind_some, hjudged]
  have hhandle : (start id (Detector.ofFlags name description flags info)).handle (.detect records) =
      (start id (Detector.ofFlags name description flags info), [Response.result (.detected judged)]) := by
    rw [handle, start, hjudge]
    rfl
  rw [Worker.ask, Worker.handle, hhandle]
  rfl

namespace Dispatcher

/-- Where no two records share an id, the records come out of their detection as they went in, but that
    each has the verdict of the last answer with its id, or the lack of one if that answer has none.
    Records that no answer is for keep what they had, which is nothing after a run. The answers may be
    any records. With a detector that gives flags in order, a record has the flag at its own place with
    what the detector says about it, and stays as it was when there are not that many flags. -/
theorem judge_verdicts {records : List FuzzRecord} (hids : (records.map (·.uuid)).Nodup) (d : Dispatcher) :
    (∀ (detector : Worker) (judged : List FuzzRecord),
      (detector.ask (.detect records) d.stageDeadline).2 = .ok (.detected judged) →
        ∃ merged after, (judge detector records).run.run d = (.ok merged, after) ∧
          merged.length = records.length ∧
          ∀ (i : Nat) (r : FuzzRecord), records[i]? = some r → merged[i]? = some { r with
            detection := ((lastFor? judged r.uuid).map (·.detection)).getD r.detection }) ∧
    ∀ (id name description : String) (flags : List FuzzRecord → Option (List Bool))
      (info : FuzzRecord → Bool → Option String) (found : List Bool),
      flags records = some found →
      (∀ (i : Nat) (r : FuzzRecord) (flag : Bool),
        records[i]? = some r → found[i]? = some flag → (info r flag).isSome = true) →
        let worker := DetectorWorker.start id (Detector.ofFlags name description flags info)
        ∃ merged after, (judge (.detector worker) records).run.run d = (.ok merged, after) ∧
          merged.length = records.length ∧ ∀ (i : Nat) (r : FuzzRecord), records[i]? = some r →
            match found[i]? with
            | some flag => ∃ text, info r flag = some text ∧
                merged[i]? = some { r with detection := some ⟨flag, text⟩ }
            | none => merged[i]? = some r := by
  constructor
  · intro detector judged hanswer
    refine ⟨merge records judged, _, run_judge hanswer, ?_, fun i r hr => ?_⟩
    · rw [merge_eq_map hids, List.length_map]
    · rw [merge_eq_map hids, List.getElem?_map, hr]
      rfl
  · intro id name description flags info found hflags hinfo worker
    obtain ⟨judged, hjudged, hlength, hflagged⟩ := Detector.attach_flagged hinfo
    have hmerge : merge records judged = judged :=
      merge_of_unjudged hids (Detector.attach_unjudged hjudged)
    have hrun := run_judge (DetectorWorker.ask_ofFlags id name description hflags hjudged d.stageDeadline)
    rw [hmerge] at hrun
    refine ⟨judged, _, hrun, hlength, fun i r hr => ?_⟩
    obtain ⟨r', hr', hflag⟩ := hflagged i r hr
    split
    · next flag hfound =>
      rw [hfound] at hflag
      obtain ⟨text, htext, rfl⟩ := hflag
      exact ⟨text, htext, hr'⟩
    · next hfound =>
      rw [hfound] at hflag
      obtain rfl : r' = r := hflag
      exact hr'

end Dispatcher

namespace Sample

/-- Answers with the second record twice, once with other arguments, and between them with a record that
    it was not asked about. -/
def contrary : Detector where
  name := "contrary"
  description := "one record twice"
  check := none
  judge _ := some [
    { Detector.sample.sampleBaseline with args := some [], detection := some ⟨true, "early"⟩ },
    { Detector.sample.sampleBaseline with uuid := "elsewhere", detection := some ⟨true, "unknown"⟩ },
    { Detector.sample.sampleBaseline with detection := some ⟨false, "late"⟩ }]

end Sample

theorem Dispatcher.judge_verdicts_sample :
    (∃ merged after, (judge (.detector (DetectorWorker.start "contrary" Sample.contrary))
        Detector.sample).run.run Sample.dispatcher = (.ok merged, after) ∧ merged.length = 2 ∧
      merged[0]? = Detector.sample[0]? ∧
      merged[1]? = some { Detector.sample.sampleBaseline with detection := some ⟨false, "late"⟩ }) ∧
    ∃ merged after, (judge (.detector (DetectorWorker.start "single" (Detector.ofFlags "single" "one flag"
        (fun _ => some [true]) fun _ _ => some "first"))) Detector.sample).run.run Sample.dispatcher =
          (.ok merged, after) ∧ merged.length = 2 ∧
      (merged[0]?.bind (·.detection)) = some ⟨true, "first"⟩ ∧
      merged[1]? = some Detector.sample.sampleBaseline := by
  have hids : (Detector.sample.map (·.uuid)).Nodup := by decide
  obtain ⟨hanswers, hflags⟩ := judge_verdicts hids Sample.dispatcher
  constructor
  · obtain ⟨merged, after, hrun, hlength, hmerged⟩ :=
      hanswers (.detector (DetectorWorker.start "contrary" Sample.contrary)) _ rfl
    exact ⟨merged, after, hrun, hlength, hmerged 0 _ rfl, hmerged 1 _ rfl⟩
  · obtain ⟨merged, after, hrun, hlength, hmerged⟩ := hflags "single" "single" "one flag"
      (fun _ => some [true]) (fun _ _ => some "first") [true] rfl (fun _ _ _ _ _ => rfl)
    obtain ⟨text, htext, hfirst⟩ := hmerged 0 _ rfl
    obtain rfl : "first" = text := Option.some.inj htext
    exact ⟨merged, after, hrun, hlength, by rw [hfirst]; rfl, hmerged 1 _ rfl⟩

end PageProbe
