import PageProbe.Plugin.Wire
import PageProbe.Proofs.Json.Values
import PageProbe.Proofs.Plugin.Combinations

namespace PageProbe

open Json

namespace Json

theorem Decoder.reads_values {vs : List Value} (h : ∀ v ∈ vs, v.Printable) :
    Decoder.values.Reads (.values vs) vs :=
  Decoder.reads_array_map fun v hv => (h v hv).reads

theorem Document.legible_values {vs : List Value} (h : ∀ v ∈ vs, v.Printable) : (Document.values vs).Legible :=
  Document.legible_array_map fun v hv => (h v hv).legible

end Json

theorem Verdict.reads (v : Verdict) : Verdict.decode.Reads v.write v := by
  refine Record.reads (by decide) (.refl _) fun room => ?_
  simp [List.lookup_cons, Field.required_ofMember (Decoder.reads_bool v.result),
    Field.required_ofMember (Decoder.reads_string v.info), ite_and]

theorem Verdict.legible (v : Verdict) : v.write.Legible :=
  .object (by simp [Document.Legible.bool, Document.Legible.string])

namespace ExecutionResponse

/-- The values of a response are printable. -/
structure Sound (r : ExecutionResponse) : Prop where
  callStack : ∀ vs ∈ r.callStack, ∀ v ∈ vs, v.Printable
  value : r.value.Printable

theorem reads {r : ExecutionResponse} (h : r.Sound) : ExecutionResponse.decode.Reads r.write r := by
  refine Record.reads (by decide) (.refl _) fun room => ?_
  have hhtml := Decoder.reads_nullable (o := r.html) (fun s _ => Decoder.reads_string s)
    (fun _ _ => Document.noConfusion)
  have hstack := Decoder.reads_nullable (fun vs hvs => Decoder.reads_values (h.callStack vs hvs))
    (fun _ _ => Document.noConfusion)
  have herror := Decoder.reads_nullable (o := r.error) (fun s _ => Decoder.reads_string s)
    (fun _ _ => Document.noConfusion)
  simp [List.lookup_cons, Field.orElse_ofMember hhtml, Field.orElse_ofMember hstack,
    Field.orElse_ofMember h.value.reads, Field.orElse_ofMember herror, ite_and]

theorem legible {r : ExecutionResponse} (h : r.Sound) : r.write.Legible := by
  have hstack := Document.legible_nullable fun vs hvs => Document.legible_values (h.callStack vs hvs)
  refine .object ?_
  simp [Document.legible_nullable, Document.Legible.string, hstack, h.value.legible]

end ExecutionResponse

namespace FuzzRecord

structure Sound (r : FuzzRecord) : Prop where
  args : ∀ vs ∈ r.args, ∀ v ∈ vs, v.Printable
  response : r.response.Sound

theorem reads {r : FuzzRecord} (h : r.Sound) : FuzzRecord.decode.Reads r.write r := by
  have hnames := (List.Sublist.refl ["uuid", "args", "response"]).append
    (Document.optional_names "detection" Verdict.write r.detection)
  refine Record.reads (by decide) (by simpa using hnames) fun room => ?_
  have hargs := Decoder.reads_nullable (fun vs hvs => Decoder.reads_values (h.args vs hvs))
    (fun _ _ => Document.noConfusion)
  have hdetection := Field.orElse_ofMember_optional "detection" Verdict.write (o := r.detection)
    (fun v _ => Verdict.reads v) (fun _ _ => Document.noConfusion) room
  simp [List.lookup_cons, Document.lookup_optional, hdetection,
    Field.required_ofMember (Decoder.reads_string r.uuid), Field.nullable_ofMember hargs,
    Field.required_ofMember (ExecutionResponse.reads h.response), ite_and]

theorem legible {r : FuzzRecord} (h : r.Sound) : r.write.Legible := by
  have hargs := Document.legible_nullable fun vs hvs => Document.legible_values (h.args vs hvs)
  have hdetection := Document.legible_optional "detection" Verdict.write (o := r.detection)
    fun v _ => Verdict.legible v
  refine .object (List.forall_mem_append.mpr ⟨?_, hdetection⟩)
  simp [Document.Legible.string, hargs, ExecutionResponse.legible h.response]

theorem reads_all {records : List FuzzRecord} (h : ∀ r ∈ records, r.Sound) :
    FuzzRecord.decodeAll.Reads (writeAll records) records :=
  Decoder.reads_array_map fun r hr => reads (h r hr)

theorem legible_all {records : List FuzzRecord} (h : ∀ r ∈ records, r.Sound) : (writeAll records).Legible :=
  Document.legible_array_map fun r hr => legible (h r hr)

end FuzzRecord

namespace GenerateRequest

structure Sound (r : GenerateRequest) : Prop where
  id : r.id < Nat.pow 2 64
  batchSize : r.batchSize < Nat.pow 2 64
  args : ∀ v ∈ r.args, v.Printable

theorem reads {r : GenerateRequest} (h : r.Sound) : GenerateRequest.decode.Reads r.write r := by
  refine Record.reads (by decide) (.refl _) fun room => ?_
  simp [List.lookup_cons, Field.required_ofMember (Decoder.reads_nat h.id),
    Field.required_ofMember (Decoder.reads_nat h.batchSize),
    Field.orElse_ofMember (Decoder.reads_values h.args), ite_and]

theorem legible {r : GenerateRequest} (h : r.Sound) : r.write.Legible :=
  .object (by
    simp [Document.legible_ofNat h.id, Document.legible_ofNat h.batchSize, Document.legible_values h.args])

end GenerateRequest

namespace GenerationRequest

structure Sound (r : GenerationRequest) : Prop where
  batchSize : r.batchSize < Nat.pow 2 64
  previousBatch : ∀ records ∈ r.previousBatch, ∀ record ∈ records, record.Sound

theorem reads {r : GenerationRequest} (h : r.Sound) : GenerationRequest.decode.Reads r.write r := by
  refine Record.reads (by decide) (.refl _) fun room => ?_
  have hprevious := Decoder.reads_nullable (fun records hr => FuzzRecord.reads_all (h.previousBatch records hr))
    (fun _ _ => Document.noConfusion)
  simp [List.lookup_cons, Field.required_ofMember (Decoder.reads_nat h.batchSize),
    Field.orElse_ofMember hprevious, ite_and]

theorem legible {r : GenerationRequest} (h : r.Sound) : r.write.Legible := by
  have hprevious := Document.legible_nullable fun records hr => FuzzRecord.legible_all (h.previousBatch records hr)
  exact .object (by simp [Document.legible_ofNat h.batchSize, hprevious])

end GenerationRequest

namespace GenerationMap

/-- The positions of a map are in order, and they are numbers of 64 bits. -/
structure Sound (m : GenerationMap) : Prop where
  ascending : m.Ascending
  slots : ∀ e ∈ m, e.1 < Nat.pow 2 64

theorem slot?_natural {n : Nat} (h : n < Nat.pow 2 64) : slot? (Number.natural n) = some n := by
  obtain ⟨d, ds, hds, hdigit, hlead⟩ := Number.toDigits_eq_cons n
  have hall : (Nat.toDigits 10 n).all Char.isDigit = true :=
    List.all_eq_true.mpr fun c hc => Number.isDigit_of_mem_toDigits hc
  have hsum := Number.foldl_toDigits n
  rw [slot?, Number.natural_toList]
  rw [hds] at hall hsum ⊢
  split
  · cases ‹_›
  · next heq =>
    obtain ⟨rfl, rest⟩ := List.cons.inj heq
    cases (hlead rfl).symm.trans rest
  · simp only [hall, hsum, if_true, if_pos h]

theorem insert_eq {slot : Nat} {module : String} {m : GenerationMap} (h : ∀ e ∈ m, e.1 < slot) :
    insert slot module m = m ++ [(slot, module)] := by
  induction m with
  | nil => rfl
  | cons e m ih =>
    obtain ⟨he, hm⟩ := List.forall_mem_cons.mp h
    rw [insert, if_neg (Nat.ne_of_gt he), if_neg (Nat.lt_asymm he), ih hm, List.cons_append]

theorem ofList_eq {m : GenerationMap} (h : m.Ascending) : ofList m = m :=
  foldl_eq_of_pairwise (fun _ _ => insert_eq) h

theorem reads {m : GenerationMap} (h : m.Sound) : GenerationMap.decode.Reads m.write m := by
  have hentries : GenerationMap.decode.Reads m.write (ofList m) :=
    Decoder.reads_entries (fun _ => rfl) (fun _ _ => rfl) (fun e : Nat × String => (Number.natural e.1, .string e.2))
      (fun _ _ => rfl) fun room e he => by simp only [slot?_natural (h.slots e he)]; rfl
  rwa [ofList_eq h.ascending] at hentries

theorem legible (m : GenerationMap) : m.write.Legible :=
  .object fun entry hentry => by
    obtain ⟨e, -, rfl⟩ := List.mem_map.mp hentry
    exact .string e.2

/-- A map whose positions are only known as texts is refused. -/
theorem decodeHeld_write {m : GenerationMap} (h : m ≠ []) (room : Nat) : decodeHeld room m.write = none := by
  cases m with
  | nil => exact absurd rfl h
  | cons e m => rfl

end GenerationMap

namespace Checks

theorem insert_eq {name : String} {ok : Bool} {c : Checks} (h : ∀ e ∈ c, e.1 < name) :
    insert name ok c = c ++ [(name, ok)] := by
  induction c with
  | nil => rfl
  | cons e c ih =>
    obtain ⟨he, hc⟩ := List.forall_mem_cons.mp h
    have hne : name ≠ e.1 := fun heq => String.lt_irrefl _ (heq ▸ he)
    rw [insert, if_neg hne, if_neg (String.lt_asymm he), ih hc, List.cons_append]

theorem ofList_eq {c : Checks} (h : c.Pairwise (·.1 < ·.1)) : ofList c = c :=
  foldl_eq_of_pairwise (fun _ _ => insert_eq) h

theorem reads {c : Checks} (h : c.Pairwise (·.1 < ·.1)) : Checks.decode.Reads c.write c := by
  have hentries : Checks.decode.Reads c.write (ofList c) :=
    Decoder.reads_entries (fun _ => rfl) (fun _ _ => rfl) (fun e : String × Bool => (e.1, .bool e.2))
      (fun _ _ => rfl) fun _ _ _ => rfl
  rwa [ofList_eq h] at hentries

theorem legible (c : Checks) : c.write.Legible :=
  .object fun entry hentry => by
    obtain ⟨e, -, rfl⟩ := List.mem_map.mp hentry
    exact .bool e.2

end Checks

theorem Characteristics.reads (c : Characteristics) : Characteristics.decode.Reads c.write c := by
  refine Record.reads (by decide) (.refl _) fun room => ?_
  simp [List.lookup_cons, Field.required_ofMember (Decoder.reads_string c.name),
    Field.required_ofMember (Decoder.reads_string c.description), ite_and]

theorem Characteristics.legible (c : Characteristics) : c.write.Legible :=
  .object (by simp [Document.Legible.string])

namespace IntegrityReport

theorem reads {r : IntegrityReport} (h : r.check.Pairwise (·.1 < ·.1)) :
    IntegrityReport.decode.Reads r.write r := by
  refine Record.reads (by decide) (.refl _) fun room => ?_
  simp [List.lookup_cons, Field.required_ofMember (Decoder.reads_string r.fileName),
    Field.required_ofMember (Checks.reads h), Field.required_ofMember (Characteristics.reads r.characteristics),
    ite_and]

theorem legible (r : IntegrityReport) : r.write.Legible :=
  .object (by simp [Document.Legible.string, Checks.legible, Characteristics.legible])

end IntegrityReport

namespace GeneratedBatch

structure Sound (b : GeneratedBatch) : Prop where
  id : b.id < Nat.pow 2 64
  batch : ∀ v ∈ b.batch, v.Printable

theorem reads {b : GeneratedBatch} (h : b.Sound) : GeneratedBatch.decode.Reads b.write b := by
  refine Record.reads (by decide) (.refl _) fun room => ?_
  simp [List.lookup_cons, Field.required_ofMember (Decoder.reads_nat h.id),
    Field.required_ofMember (Decoder.reads_values h.batch), ite_and]

theorem legible {b : GeneratedBatch} (h : b.Sound) : b.write.Legible :=
  .object (by simp [Document.legible_ofNat h.id, Document.legible_values h.batch])

end GeneratedBatch

namespace DebugMessage

theorem reads {m : DebugMessage} (h : m.content.Printable) : DebugMessage.decode.Reads m.write m := by
  refine Record.reads (by decide) (.refl _) fun room => ?_
  simp [List.lookup_cons, Field.required_ofMember (Decoder.reads_string m.header),
    Field.orElse_ofMember h.reads, ite_and]

theorem legible {m : DebugMessage} (h : m.content.Printable) : m.write.Legible :=
  .object (by simp [Document.Legible.string, h.legible])

end DebugMessage

end PageProbe
