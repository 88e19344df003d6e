import Mathlib.Data.List.Permutation
import PageProbe.Proofs.Plugin.Contents

namespace PageProbe

open Json

namespace Tagged

theorem open_tag_first (tag content : String) (held : Bool) (room : Nat) (a b : Document) :
    Tagged.open tag content held (room + 1) (.object [(tag, a), (content, b)]) =
      some ⟨a, held, room, b⟩ := by
  simp [Tagged.open]

/-- Contents that come before the name are held, so they have to fit. -/
theorem open_content_first {tag content : String} (h : content ≠ tag) (held : Bool) (room : Nat)
    (a : Document) {b : Document} (hb : b.Legible) :
    Tagged.open tag content held (room + 1) (.object [(content, b), (tag, a)]) =
      if b.height ≤ room then some ⟨a, true, room, b⟩ else none := by
  by_cases hroom : b.height ≤ room
  · obtain ⟨v, hv⟩ := Document.toValue?_of_le hb hroom
    simp [Tagged.open, h, hv, hroom]
  · simp [Tagged.open, h, Document.toValue?_of_not_le hb hroom, hroom]

end Tagged

namespace Request

def Sound : Request → Prop
  | .checkIntegrity _ => True
  | .generate g => g.Sound
  | .detect batch => ∀ record ∈ batch, record.Sound
  | .handleGeneration g => g.Sound
  | .initializeBrain m => m.Sound

/-- What a request holds behind its name. -/
def contents : Request → Document
  | .checkIntegrity m => .string m
  | .generate g => g.write
  | .detect batch => FuzzRecord.writeAll batch
  | .handleGeneration g => g.write
  | .initializeBrain m => m.write

def members (r : Request) : List (String × Document) := [("command", .string r.command), ("payload", r.contents)]

theorem write_eq (r : Request) : r.write = .object r.members := by
  cases r <;> rfl

theorem legible_contents {r : Request} (h : r.Sound) : r.contents.Legible := by
  cases r with
  | checkIntegrity m => exact .string m
  | generate g => exact GenerateRequest.legible h
  | detect batch => exact FuzzRecord.legible_all h
  | handleGeneration g => exact GenerationRequest.legible h
  | initializeBrain m => exact GenerationMap.legible m

/-- Contents that are read where they stand. -/
theorem reads_contents {r : Request} (h : r.Sound) : (decodeContents r.command false).Reads r.contents r := by
  cases r with
  | checkIntegrity m => exact (Decoder.reads_string m).map
  | generate g => exact (GenerateRequest.reads h).map
  | detect batch => exact (FuzzRecord.reads_all h).map
  | handleGeneration g => exact (GenerationRequest.reads h).map
  | initializeBrain m => exact (GenerationMap.reads h).map

/-- Contents that were taken in before their type was known, and that are no map with entries. -/
theorem decodeContents_held {r : Request} (h : r.Sound) (hmap : ∀ m, r = .initializeBrain m → m = [])
    {room : Nat} (hroom : r.contents.height ≤ room) :
    decodeContents r.command true room r.contents = some r := by
  have hread := reads_contents h room
  rw [if_pos hroom] at hread
  cases r with
  | initializeBrain m =>
    rw [hmap m rfl]
    rfl
  | _ => exact hread

theorem reads_tag_first {r : Request} (h : r.Sound) : Request.decode.Reads (.object r.members) r := by
  intro room
  rw [members]
  cases room with
  | zero => simp [decode, Tagged.open, Document.height]
  | succ room =>
    simp [decode, Tagged.open_tag_first, Decoder.string, reads_contents h room, Document.height]

theorem reads_contents_first {r : Request} (h : r.Sound) (hmap : ∀ m, r = .initializeBrain m → m = []) :
    Request.decode.Reads (.object [("payload", r.contents), ("command", .string r.command)]) r := by
  intro room
  cases room with
  | zero => simp [decode, Tagged.open, Document.height]
  | succ room =>
    have hopen : Tagged.open "command" "payload" false (room + 1)
        (.object [("payload", r.contents), ("command", .string r.command)]) = _ :=
      Tagged.open_content_first (by decide) false room (.string r.command) (legible_contents h)
    by_cases hroom : r.contents.height ≤ room
    · simp [decode, hopen, hroom, Decoder.string, decodeContents_held h hmap hroom, Document.height]
    · simp [decode, hopen, hroom, Document.height]

/-- A map with entries is refused behind no name. -/
theorem decode_map_first {m : GenerationMap} (hm : m ≠ []) (room : Nat) :
    Request.decode room (.object [("payload", m.write), ("command", .string "initializeBrain")]) = none := by
  cases room with
  | zero => rfl
  | succ room =>
    have hopen : Tagged.open "command" "payload" false (room + 1)
        (.object [("payload", m.write), ("command", .string "initializeBrain")]) = _ :=
      Tagged.open_content_first (by decide) false room (.string "initializeBrain") (GenerationMap.legible m)
    by_cases hroom : m.write.height ≤ room
    · simp [decode, hopen, hroom, Decoder.string, decodeContents, GenerationMap.decodeHeld_write hm]
    · simp [decode, hopen, hroom]

end Request

namespace ResponseBody

def Sound : ResponseBody → Prop
  | .integrity r => r.check.Pairwise (·.1 < ·.1)
  | .generated b => b.Sound
  | .detected records => ∀ record ∈ records, record.Sound
  | .assembled tuples => ∀ values ∈ tuples, ∀ v ∈ values, v.Printable
  | .mark m => m.Sound
  | .debug m => m.content.Printable

theorem legible_contents {b : ResponseBody} (h : b.Sound) : b.writeContents.Legible := by
  cases b with
  | integrity r => exact IntegrityReport.legible r
  | generated b => exact GeneratedBatch.legible h
  | detected records => exact FuzzRecord.legible_all h
  | assembled tuples => exact Document.legible_array_map fun values hvalues => Document.legible_values (h values hvalues)
  | mark m => exact GenerationMap.legible m
  | debug m => exact DebugMessage.legible h

/-- Contents of responses are always taken in before their type is known. -/
theorem decodeContents_held {b : ResponseBody} (h : b.Sound) (hmark : ∀ m, b = .mark m → m = []) {room : Nat}
    (hroom : b.writeContents.height ≤ room) : decodeContents b.className room b.writeContents = some b := by
  have hreads : ∀ {α : Type} {decode : Decoder α} {a : α} (f : α → ResponseBody),
      decode.Reads b.writeContents a → (decode room b.writeContents).map f = some (f a) := by
    intro α decode a f hread
    rw [hread, if_pos hroom]
    rfl
  cases b with
  | integrity r => exact hreads .integrity (IntegrityReport.reads h)
  | generated b => exact hreads .generated (GeneratedBatch.reads h)
  | detected records => exact hreads .detected (FuzzRecord.reads_all h)
  | assembled tuples =>
    exact hreads .assembled (Decoder.reads_array_map fun values hvalues => Decoder.reads_values (h values hvalues))
  | mark m =>
    rw [hmark m rfl]
    rfl
  | debug m => exact hreads .debug (DebugMessage.reads h)

theorem className?_className (b : ResponseBody) : className? (.string b.className) = some b.className := rfl

end ResponseBody

namespace Response

/-- The members of a response. -/
def members (r : Response) : List (String × Document) :=
  [("debug", .bool r.isDebug), ("class", .string r.body.className), ("payload", r.body.writeContents)]

theorem write_eq (r : Response) : r.write = .object r.members := rfl

/-- What is left of a response without its flag is a variant, whose contents have to fit. -/
theorem open_variant {b : ResponseBody} (h : b.Sound) {others : List (String × Document)}
    (hothers : others.Perm [("class", .string b.className), ("payload", b.writeContents)]) (room : Nat) :
    ((others.mapM fun m : String × Document => m.2.toValue? room).bind fun _ =>
      Tagged.open "class" "payload" true (room + 1) (.object others)) =
      if b.writeContents.height ≤ room then some (Tagged.mk (.string b.className) true room b.writeContents)
      else none := by
  have hcontents := ResponseBody.legible_contents h
  have hname : (Document.string b.className).toValue? room = some (.string b.className) := rfl
  have hopen : Tagged.open "class" "payload" true (room + 1)
      (.object [("payload", b.writeContents), ("class", .string b.className)]) = _ :=
    Tagged.open_content_first (by decide) true room (.string b.className) hcontents
  by_cases hroom : b.writeContents.height ≤ room
  · obtain ⟨v, hv⟩ := Document.toValue?_of_le hcontents hroom
    rcases List.perm_pair.mp hothers with rfl | rfl
    · simp [hname, hv, hroom, Tagged.open_tag_first]
    · simp [hname, hv, hroom, hopen]
  · have hv := Document.toValue?_of_not_le hcontents hroom
    rcases List.perm_pair.mp hothers with rfl | rfl <;> simp [hname, hv, hroom]

theorem decode_succ {r : Response} (h : r.body.Sound) {members : List (String × Document)}
    (hperm : members.Perm r.members) (room : Nat) :
    Response.decode (room + 1) (.object members) =
      if r.body.writeContents.height ≤ room then
        (ResponseBody.decodeContents r.body.className room r.body.writeContents).map fun b => ⟨r.isDebug, b⟩
      else none := by
  have hflag : members.filter (fun m => m.1 == "debug") = [("debug", .bool r.isDebug)] :=
    List.perm_singleton.mp (hperm.filter fun m => m.1 == "debug")
  have hopen := open_variant h (hperm.filter fun m => m.1 != "debug") room
  simp only [decode, hflag, Decoder.bool, Option.bind_eq_bind, Option.bind_some]
  rw [← Option.bind_assoc, hopen, bind_ite_some]
  simp only [ResponseBody.className?_className, Option.bind_some]
  split
  · cases ResponseBody.decodeContents r.body.className room r.body.writeContents <;> rfl
  · rfl

theorem membersHeight_le {r : Response} {members : List (String × Document)} (hperm : members.Perm r.members)
    (room : Nat) : Document.membersHeight members ≤ room ↔ r.body.writeContents.height ≤ room := by
  rw [Document.membersHeight_le_iff]
  simp [hperm.mem_iff, Response.members, Document.height]

theorem reads_reordered {r : Response} (h : r.body.Sound) (hmark : ∀ m, r.body = .mark m → m = [])
    {members : List (String × Document)} (hperm : members.Perm r.members) :
    Response.decode.Reads (.object members) r := by
  intro room
  cases room with
  | zero => rw [Document.height, if_neg (by omega)]; rfl
  | succ room =>
    simp only [decode_succ h hperm, Document.height, Nat.add_le_add_iff_right, membersHeight_le hperm]
    split
    · next hroom => rw [ResponseBody.decodeContents_held h hmark hroom]; rfl
    · rfl

/-- A mark with entries is never read. -/
theorem decode_mark {r : Response} {m : GenerationMap} (h : r.body.Sound) (hr : r.body = .mark m) (hm : m ≠ [])
    {members : List (String × Document)} (hperm : members.Perm r.members) (room : Nat) :
    Response.decode room (.object members) = none := by
  cases room with
  | zero => rfl
  | succ room =>
    rw [decode_succ h hperm, hr]
    simp [ResponseBody.className, ResponseBody.decodeContents, ResponseBody.writeContents,
      GenerationMap.decodeHeld_write hm]

theorem legible {r : Response} (h : r.body.Sound) : r.write.Legible :=
  .object <| by simp [Document.Legible.bool, Document.Legible.string, ResponseBody.legible_contents h]

end Response

/-- One object, with its members in any order. -/
inductive Json.Document.Reorders : Document → Document → Prop where
  | object {ms ms' : List (String × Document)} (h : ms.Perm ms') : Reorders (.object ms) (.object ms')

theorem Json.Document.Reorders.legible {d d' : Document} (h : d.Reorders d') (hd : d'.Legible) : d.Legible := by
  obtain ⟨hperm⟩ := h
  cases hd with
  | object hmembers => exact .object fun m hm => hmembers m (hperm.mem_iff.mp hm)

/-- The contents come before the name, and they are a map of generators with entries. -/
def Request.HoldsMap (r : Request) (d : Document) : Prop :=
  ∃ (m : GenerationMap) (rest : List (String × Document)), r = .initializeBrain m ∧ m ≠ [] ∧
    d = .object (("payload", m.write) :: rest)

/-- The contents are a map of generators with entries. -/
def Response.HoldsMap (r : Response) : Prop := ∃ m : GenerationMap, r.body = .mark m ∧ m ≠ []

namespace Request

theorem legible {r : Request} (h : r.Sound) : r.write.Legible := by
  rw [write_eq]
  exact .object (by simp [members, Document.Legible.string, legible_contents h])

theorem restores_reordered {r : Request} (h : r.Sound) {d : Document} (hd : d.Reorders r.write)
    (hmap : ¬ r.HoldsMap d) : Request.decode.Restores d r := by
  have hlegible := hd.legible (legible h)
  rw [write_eq] at hd
  obtain ⟨hperm⟩ := hd
  rcases List.perm_pair.mp hperm with rfl | rfl
  · exact (reads_tag_first h).restores hlegible
  · have hempty : ∀ m, r = .initializeBrain m → m = [] := by
      rintro m rfl
      exact by_contra fun hm => hmap ⟨m, _, rfl, hm, rfl⟩
    exact (reads_contents_first h hempty).restores hlegible

theorem refuses_reordered {r : Request} (h : r.Sound) {d : Document} (hd : d.Reorders r.write)
    (hmap : r.HoldsMap d) : Request.decode.Refuses d := by
  obtain ⟨m, rest, rfl, hm, rfl⟩ := hmap
  have hlegible := hd.legible (legible h)
  rw [write_eq] at hd
  obtain ⟨hperm⟩ := hd
  have hrest : rest = [("command", .string "initializeBrain")] := by
    rcases List.perm_pair.mp hperm with heq | heq
    · exact absurd (congrArg Prod.fst (List.cons.inj heq).1) (by simp)
    · exact (List.cons.inj heq).2
  subst hrest
  exact Decoder.refuses_of_none (decode_map_first hm) hlegible

end Request

namespace Response

theorem restores_reordered {r : Response} (h : r.body.Sound) {d : Document} (hd : d.Reorders r.write)
    (hmap : ¬ r.HoldsMap) : Response.decode.Restores d r := by
  have hlegible := hd.legible (legible h)
  rw [write_eq] at hd
  obtain ⟨hperm⟩ := hd
  have hempty : ∀ m, r.body = .mark m → m = [] := fun m hr => by_contra fun hm => hmap ⟨m, hr, hm⟩
  exact (reads_reordered h hempty hperm).restores hlegible

theorem refuses_reordered {r : Response} (h : r.body.Sound) {d : Document} (hd : d.Reorders r.write)
    (hmap : r.HoldsMap) : Response.decode.Refuses d := by
  obtain ⟨m, hr, hm⟩ := hmap
  have hlegible := hd.legible (legible h)
  rw [write_eq] at hd
  obtain ⟨hperm⟩ := hd
  exact Decoder.refuses_of_none (decode_mark h hr hm hperm) hlegible

end Response

/-- A request and a response come back from their forms, with the members in any order, unless they have a
    map of generators with entries that is taken in before its type is known: then the form is refused. -/
theorem decode_reordered_messages (request : Request) (response : Response) (hrequest : request.Sound)
    (hresponse : response.body.Sound) :
    (∀ d : Document, d.Reorders request.write →
      (¬ request.HoldsMap d → Request.decode.Restores d request) ∧
        (request.HoldsMap d → Request.decode.Refuses d)) ∧
    ∀ d : Document, d.Reorders response.write →
      (¬ response.HoldsMap → Response.decode.Restores d response) ∧
        (response.HoldsMap → Response.decode.Refuses d) :=
  ⟨fun _ hd => ⟨Request.restores_reordered hrequest hd, Request.refuses_reordered hrequest hd⟩,
    fun _ hd => ⟨Response.restores_reordered hresponse hd, Response.refuses_reordered hresponse hd⟩⟩

namespace Sample

/-- A generator for the first position. -/
def startedMap : GenerationMap := [(0, "specialCharGenModule")]

def brainRequest : Request := .initializeBrain startedMap

def startedMark : Response := .result (.mark startedMap)

/-- What a generator has to say about itself, with a free value. -/
def progress : Response := .debug "gen" (.object [("done", .bool true), ("left", .array [])])

theorem startedMap_sound : startedMap.Sound where
  ascending := by simp [GenerationMap.Ascending, startedMap]
  slots := by simp [startedMap]

theorem progress_sound : progress.body.Sound :=
  .object (by decide) (by simp [Value.Printable.bool, Value.Printable.array])

/-- The name of a request comes first as it is written. -/
theorem brainRequest_written : ¬ brainRequest.HoldsMap brainRequest.write := by
  rintro ⟨m, rest, -, -, heq⟩
  have hfirst := congrArg (fun ms => ms.head?.map Prod.fst) (Document.object.inj heq)
  simp at hfirst

end Sample

/-- A request for a brain comes back as it is written, and a response that holds no map with its members in
    reverse; a mark with the map of the request is refused. -/
theorem decode_reordered_messages_started :
    Request.decode.Restores Sample.brainRequest.write Sample.brainRequest ∧
      Response.decode.Restores (.object Sample.progress.members.reverse) Sample.progress ∧
      Response.decode.Refuses Sample.startedMark.write := by
  obtain ⟨hrequest, hprogress⟩ := decode_reordered_messages Sample.brainRequest Sample.progress
    Sample.startedMap_sound Sample.progress_sound
  obtain ⟨-, hmark⟩ := decode_reordered_messages Sample.brainRequest Sample.startedMark
    Sample.startedMap_sound Sample.startedMap_sound
  have hfree : ¬ Sample.progress.HoldsMap := by
    rintro ⟨m, hm, -⟩
    cases hm
  exact ⟨(hrequest _ (.object (.refl _))).1 Sample.brainRequest_written,
    (hprogress _ (.object (List.reverse_perm _))).1 hfree,
    (hmark _ (.object (.refl _))).2 ⟨_, rfl, by simp [Sample.startedMap]⟩⟩

/-- The text of a mark is refused as it is written, and the text of the request with the same map when its
    contents come first. -/
theorem Response.ofText_mark :
    Sample.startedMark.body.Sound ∧ Decoder.ofText Response.decode Sample.startedMark.write.compact = none ∧
      Decoder.ofText Request.decode (Document.object Sample.brainRequest.members.reverse).compact = none := by
  have hmark : Sample.startedMark.HoldsMap := ⟨_, rfl, by simp [Sample.startedMap]⟩
  have hrequest : Sample.brainRequest.HoldsMap (.object Sample.brainRequest.members.reverse) :=
    ⟨_, _, rfl, by simp [Sample.startedMap], rfl⟩
  have hmarkSound : Sample.startedMark.body.Sound := Sample.startedMap_sound
  have hrequestSound : Sample.brainRequest.Sound := Sample.startedMap_sound
  exact ⟨hmarkSound, (Response.refuses_reordered hmarkSound (.object (.refl _)) hmark).2,
    (Request.refuses_reordered hrequestSound (.object (List.reverse_perm _)) hrequest).2⟩

end PageProbe
