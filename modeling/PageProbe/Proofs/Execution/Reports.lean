import PageProbe.Execution.Report
import PageProbe.Proofs.Plugin.Contents

/-!
A line is first read as a message with a report inside of it, and then as a report alone. Neither form stands
in the way of the other: a report has no payload, and a message has no id of its own. What the library can
print is therefore read back from both forms, and where there is a payload nothing else counts.
-/

namespace PageProbe

open Json

namespace Text

/-- The blanks around a text are left out, and nothing of a text that neither starts nor ends with one. -/
theorem trim_between {before after text : String} {first last : Char} {cs ds : List Char}
    (hbefore : ∀ c ∈ before.toList, isBlank c = true) (hafter : ∀ c ∈ after.toList, isBlank c = true)
    (hfirst : text.toList = first :: cs) (hfirst' : isBlank first = false)
    (hlast : text.toList = ds ++ [last]) (hlast' : isBlank last = false) :
    trim (before ++ text ++ after) = text := by
  have hstart : trimStart (before ++ text ++ after).toList = text.toList ++ after.toList := by
    rw [trimStart, String.toList_append, String.toList_append, List.append_assoc,
      List.dropWhile_append_of_pos hbefore, hfirst, List.cons_append,
      List.dropWhile_cons_of_neg (by simp [hfirst'])]
  have hafter' : ∀ c ∈ after.toList.reverse, isBlank c = true := fun c hc =>
    hafter c (List.mem_reverse.mp hc)
  have hend : trimEnd (text.toList ++ after.toList) = text.toList := by
    rw [trimEnd, List.reverse_append, List.dropWhile_append_of_pos hafter', hlast, List.reverse_append,
      List.reverse_singleton, List.singleton_append, List.dropWhile_cons_of_neg (by simp [hlast']),
      List.reverse_cons, List.reverse_reverse]
  rw [trim, hstart, hend, String.ofList_toList]

end Text

namespace Json

theorem Document.trim_compact_object {before after : String}
    (hbefore : ∀ c ∈ before.toList, Text.isBlank c = true) (hafter : ∀ c ∈ after.toList, Text.isBlank c = true)
    (members : List (String × Document)) :
    Text.trim (before ++ (Document.object members).compact ++ after) = (Document.object members).compact := by
  have htext : (Document.object members).compact.toList =
      '\x7b' :: ((Document.compactMembers true members).toList ++ ['\x7d']) := by
    simp [Document.compact]
  exact Text.trim_between hbefore hafter htext (by decide) (htext.trans (List.cons_append).symm) (by decide)

/-- With names that differ, a member is found by its name. -/
theorem lookup_eq_some_iff {members : List (String × Document)} (h : (members.map Prod.fst).Nodup)
    {name : String} {d : Document} : members.lookup name = some d ↔ (name, d) ∈ members := by
  induction members with
  | nil => simp
  | cons m ms ih =>
    obtain ⟨n, e⟩ := m
    obtain ⟨hn, hms⟩ := List.nodup_cons.mp h
    rw [List.lookup_cons, List.mem_cons, Prod.mk.injEq]
    by_cases hname : name = n
    · have hout : (name, d) ∉ ms := fun hmem => hn (List.mem_map.mpr ⟨_, hmem, hname⟩)
      simp [hname, hname ▸ hout, eq_comm]
    · simp [hname, beq_false_of_ne hname, ih hms]

/-- The levels that a member takes, if it is there. -/
def heightOf (found : Option Document) : Nat := found.elim 0 Document.height

/-- Members take the levels that those of their names take. -/
theorem Document.membersHeight_le_iff_lookup {members : List (String × Document)} {names : List String}
    (h : (members.map Prod.fst).Nodup) (hnames : ∀ m ∈ members, m.1 ∈ names) (room : Nat) :
    membersHeight members ≤ room ↔ ∀ name ∈ names, heightOf (members.lookup name) ≤ room := by
  rw [membersHeight_le_iff]
  constructor
  · intro hall name _
    cases hfound : members.lookup name with
    | none => exact Nat.zero_le room
    | some d => exact hall _ ((lookup_eq_some_iff h).mp hfound)
  · intro hall m hm
    have hheight := hall m.1 (hnames m hm)
    rwa [(lookup_eq_some_iff h).mpr hm] at hheight

/-- What may be found for an optional value: the value, or nothing where there is none, or something that
    stands for none. -/
def Stands (absent : List Document) (write : α → Document) (o : Option α) (found : Option Document) : Prop :=
  found = o.map write ∨ o = none ∧ ∃ d ∈ absent, found = some d

variable {absent : List Document} {write : α → Document} {o : Option α} {found : Option Document}

/-- An optional value is read from whatever may be found for it. -/
theorem Field.orElse_of_stands (decode : Decoder (Option α)) (h : Stands absent write o found)
    (hwrite : ∀ a ∈ o, decode.Reads (write a) (some a)) (habsent : ∀ d ∈ absent, decode.Reads d none)
    (room : Nat) :
    (Field.ofMember room found).orElse none decode = if heightOf found ≤ room then some o else none := by
  rcases h with rfl | ⟨rfl, d, hd, rfl⟩
  · cases o with
    | none => simp [Field.ofMember, Field.orElse, heightOf]
    | some a => exact Field.orElse_ofMember (hwrite a rfl) none room
  · exact Field.orElse_ofMember (habsent d hd) none room

theorem Stands.legible (h : Stands absent write o found) (hwrite : ∀ a ∈ o, (write a).Legible)
    (habsent : ∀ d ∈ absent, d.Legible) : ∀ d ∈ found, d.Legible := by
  rintro d rfl
  rcases h with hsome | ⟨-, e, he, hsome⟩
  · obtain ⟨a, ha, rfl⟩ := Option.map_eq_some_iff.mp hsome.symm
    exact hwrite a ha
  · exact Option.some.inj hsome ▸ habsent e he

end Json

namespace ExecutionReport

/-- The values of a report are printable. -/
structure Sound (r : ExecutionReport) : Prop where
  returnedValue : r.returnedValue.Printable
  callStack : ∀ vs ∈ r.callStack, ∀ v ∈ vs, v.Printable

def memberNames : List String := ["uniqueId", "returnedValue", "serializedDOM", "callStack", "error"]

/-- Members that tell a report, in any order. What the report does not have may be left out or be `null`, and
    in place of an error there may also be `false`. -/
structure ToldBy (r : ExecutionReport) (members : List (String × Document)) : Prop where
  distinct : (members.map Prod.fst).Nodup
  named : ∀ m ∈ members, m.1 ∈ memberNames
  uniqueId : members.lookup "uniqueId" = some (.string r.uniqueId)
  returnedValue : members.lookup "returnedValue" = some (Document.ofValue r.returnedValue) ∨
    r.returnedValue = .null ∧ members.lookup "returnedValue" = none
  serializedDom : Stands [.null] .string r.serializedDom (members.lookup "serializedDOM")
  callStack : Stands [.null] Document.values r.callStack (members.lookup "callStack")
  error : Stands [.null, .bool false] .string r.error (members.lookup "error")

/-- A message with a payload. Its class may be left out. -/
structure Posts (outer : List (String × Document)) (payload : Document) : Prop where
  payload : outer.filter (·.1 == "payload") = [("payload", payload)]
  className : outer.filter (·.1 == "class") = [] ∨
    ∃ d, outer.filter (·.1 == "class") = [("class", d)] ∧ (d = .null ∨ ∃ s, d = .string s)

/-- The members of the message that holds what a harness posts. -/
def posted (debug : Bool) (className : String) (payload : Document) : List (String × Document) :=
  [("debug", .bool debug), ("class", .string className), ("payload", payload)]

variable {r : ExecutionReport} {members outer : List (String × Document)} {payload : Document}

/-- The order of the members of a message does not matter. -/
theorem posts_of_perm {debug : Bool} {className : String} (h : outer.Perm (posted debug className payload)) :
    Posts outer payload :=
  ⟨List.perm_singleton.mp (h.filter (·.1 == "payload")),
    .inr ⟨.string className, List.perm_singleton.mp (h.filter (·.1 == "class")), .inr ⟨className, rfl⟩⟩⟩

/-- What the library writes tells the report. -/
theorem toldBy_write (r : ExecutionReport) : ∃ members, r.write = .object members ∧ r.ToldBy members := by
  refine ⟨_, rfl, show memberNames.Nodup by decide, ?_, rfl, .inl rfl, ?_, ?_, ?_⟩
  · exact fun m hm => List.mem_map.mpr ⟨m, hm, rfl⟩
  · cases hdom : r.serializedDom with
    | none => exact .inr ⟨rfl, _, List.mem_cons_self, rfl⟩
    | some text => exact .inl rfl
  · cases hstack : r.callStack with
    | none => exact .inr ⟨rfl, _, List.mem_cons_self, rfl⟩
    | some vs => exact .inl rfl
  · cases herror : r.error with
    | none => exact .inr ⟨rfl, _, List.mem_cons_self, rfl⟩
    | some text => exact .inl rfl

theorem reads_nothing {decode : Decoder (Option α)} (h : ∀ room, decode room .null = some none) :
    ∀ d ∈ [Document.null], decode.Reads d none := by
  intro d hd room
  rw [List.mem_singleton.mp hd, h]
  simp [Document.height]

theorem reads_error (text : String) : decodeError.Reads (.string text) (some text) := fun room => by
  simp [decodeError, Document.height]

theorem reads_noError : ∀ d ∈ [Document.null, .bool false], decodeError.Reads d none := by
  simp only [List.mem_cons, List.not_mem_nil, or_false, forall_eq_or_imp, forall_eq]
  exact ⟨fun room => by simp [decodeError, Document.height], fun room => by simp [decodeError, Document.height]⟩

namespace ToldBy

/-- A field has the member of its name, or is missing where there is none. -/
theorem fields_eq (h : r.ToldBy members) (room : Nat) :
    Record.fields memberNames false (room + 1) (.object members) =
      some (memberNames.map fun name => Field.ofMember room (members.lookup name)) := by
  rw [Record.fields, Bool.false_and, if_neg (by decide)]
  exact mapM_eq_some fun name _ => Record.pick_eq h.distinct room name

theorem height_le_iff (h : r.ToldBy members) (room : Nat) : (Document.object members).height ≤ room + 1 ↔
    ∀ name ∈ memberNames, heightOf (members.lookup name) ≤ room := by
  rw [Document.height, Nat.add_le_add_iff_right]
  exact Document.membersHeight_le_iff_lookup h.distinct h.named room

/-- A value that is missing is `null`. -/
theorem returnedValue_eq (h : r.ToldBy members) (hr : r.Sound) (room : Nat) :
    (Field.ofMember room (members.lookup "returnedValue")).orElse .null Decoder.value =
      if heightOf (members.lookup "returnedValue") ≤ room then some r.returnedValue else none := by
  rcases h.returnedValue with hsome | ⟨hnull, hnone⟩
  · rw [hsome]
    exact Field.orElse_ofMember hr.returnedValue.reads _ room
  · simp [hnone, hnull, Field.ofMember, Field.orElse, heightOf]

theorem reads (h : r.ToldBy members) (hr : r.Sound) : decode.Reads (.object members) r := by
  have hdom := Field.orElse_of_stands (Decoder.option Decoder.string) h.serializedDom
    (fun s _ => Decoder.reads_nullable (o := some s) (fun s _ => Decoder.reads_string s)
      fun _ _ => Document.noConfusion) (reads_nothing fun _ => rfl)
  have hstack := Field.orElse_of_stands (Decoder.option (Decoder.array Decoder.value)) h.callStack
    (fun vs hvs => Decoder.reads_nullable (o := some vs)
      (fun vs' hvs' => Decoder.reads_values (hr.callStack vs' (Option.some.inj hvs' ▸ hvs)))
      fun _ _ => Document.noConfusion) (reads_nothing fun _ => rfl)
  have herror := Field.orElse_of_stands decodeError h.error (fun text _ => reads_error text)
    reads_noError
  intro room
  cases room with
  | zero => simp [decode, Record.fields, Document.height]
  | succ room =>
    have hfields := h.fields_eq room
    have hheight := h.height_le_iff room
    rw [memberNames] at hfields hheight
    have hid : (Field.ofMember room (members.lookup "uniqueId")).required Decoder.string = some r.uniqueId := by
      rw [h.uniqueId]
      rfl
    have hidHeight : heightOf (members.lookup "uniqueId") ≤ room := by
      rw [h.uniqueId]
      exact Nat.zero_le room
    simp only [decode, hfields]
    simp [hid, h.returnedValue_eq hr, hdom, hstack, herror, hheight, hidHeight, ite_and]

theorem legible (h : r.ToldBy members) (hr : r.Sound) : (Document.object members).Legible := by
  have hnull : ∀ d ∈ [Document.null], d.Legible := List.forall_mem_singleton.mpr .null
  have hnoError : ∀ d ∈ [Document.null, .bool false], d.Legible :=
    List.forall_mem_cons.mpr ⟨.null, List.forall_mem_singleton.mpr (.bool false)⟩
  have hfound : ∀ name ∈ memberNames, ∀ d ∈ members.lookup name, d.Legible := by
    simp only [memberNames, List.forall_mem_cons]
    refine ⟨?_, ?_, ?_, ?_, ?_, fun _ hmem => absurd hmem List.not_mem_nil⟩
    · simp [h.uniqueId, Document.Legible.string]
    · rcases h.returnedValue with hsome | ⟨-, hnone⟩
      · simp [hsome, hr.returnedValue.legible]
      · simp [hnone]
    · exact h.serializedDom.legible (fun s _ => .string s) hnull
    · exact h.callStack.legible (fun vs hvs => Document.legible_values (hr.callStack vs hvs)) hnull
    · exact h.error.legible (fun text _ => .string text) hnoError
  exact .object fun m hm => hfound m.1 (h.named m hm) m.2 ((lookup_eq_some_iff h.distinct).mpr hm)

end ToldBy

/-- A name that no member has. -/
theorem pick_unnamed {name : String} (h : ∀ m ∈ members, m.1 ≠ name) (room : Nat) :
    Record.pick room members name = some .unnamed := by
  have hnone : members.filter (·.1 == name) = [] :=
    List.filter_eq_nil_iff.mpr fun m hm hname => h m hm (beq_iff_eq.mp hname)
  rw [Record.pick, hnone]

/-- Without a payload there is no message. -/
theorem decodePosted_eq_none (h : ∀ m ∈ members, m.1 ≠ "payload") (room : Nat) :
    decodePosted room (.object members) = none := by
  cases room with
  | zero => rfl
  | succ room =>
    cases hclass : Record.pick room members "class" with
    | none => simp [decodePosted, Record.fields, hclass]
    | some className => simp [decodePosted, Record.fields, hclass, pick_unnamed h, Field.required]

/-- Without an id there is no report. -/
theorem decode_eq_none (h : ∀ m ∈ members, m.1 ≠ "uniqueId") (room : Nat) :
    decode room (.object members) = none := by
  cases room with
  | zero => rfl
  | succ room =>
    have hfields : Record.fields memberNames false (room + 1) (.object members) =
        (memberNames.tail.mapM (Record.pick room members)).map (Field.unnamed :: ·) := by
      rw [Record.fields, Bool.false_and, if_neg (by decide), memberNames, List.mapM_cons, pick_unnamed h,
        List.tail_cons]
      simp only [Option.pure_def, Option.bind_eq_bind, Option.bind_some, Option.map_eq_bind, Function.comp_def]
    rw [memberNames] at hfields
    simp only [decode, hfields]
    cases List.mapM (Record.pick room members) (List.tail _) with
    | none => rfl
    | some others =>
      simp only [Option.map_some, Option.bind_eq_bind, Option.bind_some]
      split
      · next heq =>
        obtain ⟨rfl, -⟩ := List.cons.inj heq
        rfl
      · rfl

/-- Of a message only the payload counts. -/
theorem Posts.decodePosted_eq (h : Posts outer payload) (room : Nat) :
    decodePosted (room + 1) (.object outer) = decode room payload := by
  obtain ⟨hpayload, hclass⟩ := h
  rcases hclass with hnone | ⟨d, hsome, rfl | ⟨s, rfl⟩⟩
  · simp [decodePosted, Record.fields, Record.pick, hpayload, hnone, Field.required, Field.orElse]
  · simp [decodePosted, Record.fields, Record.pick, hpayload, hsome, Field.required, Field.orElse, Decoder.option]
  · simp [decodePosted, Record.fields, Record.pick, hpayload, hsome, Field.required, Field.orElse, Decoder.option,
      Decoder.string]

theorem ofLine?_eq {line : String} {d : Document} (h : parse (Text.trim line) = some d) :
    ofLine? line = (decodePosted maxNesting d).or (decode maxNesting d) := by
  rw [ofLine?, Decoder.ofText, Decoder.ofText, h]
  rfl

/-- A report is read from every line that tells it, and from every message around it, with any blanks around
    the line, as long as it is not nested too deep. And where a message has a payload that is a report, it is
    this report that is read, whatever else there is. -/
theorem ofLine?_reports (r : ExecutionReport) (hr : r.Sound) (before after : String)
    (hbefore : ∀ c ∈ before.toList, Text.isBlank c = true) (hafter : ∀ c ∈ after.toList, Text.isBlank c = true) :
    (∀ members, r.ToldBy members →
      ofLine? (before ++ (Document.object members).compact ++ after) =
        if (Document.object members).height ≤ maxNesting then some r else none) ∧
    (∀ members outer debug className, r.ToldBy members →
      outer.Perm (posted debug className (.object members)) →
      ofLine? (before ++ (Document.object outer).compact ++ after) =
        if (Document.object members).height < maxNesting then some r else none) ∧
    ∀ line outer payload r', parse (Text.trim line) = some (.object outer) → Posts outer payload →
      decode (maxNesting - 1) payload = some r' → ofLine? line = some r' := by
  refine ⟨fun members h => ?_, fun members outer debug className h houter => ?_,
    fun line outer payload r' hparse hposts hdecode => ?_⟩
  · have hbare : ∀ m ∈ members, m.1 ≠ "payload" := fun m hm hname =>
      absurd (hname ▸ h.named m hm) (by decide)
    rw [ofLine?_eq (by rw [Document.trim_compact_object hbefore hafter, parse_compact (h.legible hr)]),
      decodePosted_eq_none hbare, Option.none_or, h.reads hr]
  · have hlegible : (Document.object outer).Legible := .object fun m hm => by
      have hm := houter.mem_iff.mp hm
      simp only [posted, List.mem_cons, List.not_mem_nil, or_false] at hm
      rcases hm with rfl | rfl | rfl
      · exact .bool debug
      · exact .string className
      · exact h.legible hr
    have hanonymous : ∀ m ∈ outer, m.1 ≠ "uniqueId" := fun m hm => by
      have hname := List.mem_map_of_mem (f := Prod.fst) (houter.mem_iff.mp hm)
      exact fun hid => absurd (hid ▸ hname) (show "uniqueId" ∉ ["debug", "class", "payload"] by decide)
    rw [ofLine?_eq (by rw [Document.trim_compact_object hbefore hafter, parse_compact hlegible]),
      decode_eq_none hanonymous, Option.or_none]
    have hposted := (posts_of_perm houter).decodePosted_eq (maxNesting - 1)
    rw [h.reads hr] at hposted
    exact hposted.trans (if_congr (Nat.le_sub_one_iff_lt (by decide)) rfl rfl)
  · have hposted := (hposts.decodePosted_eq (maxNesting - 1)).trans hdecode
    rw [ofLine?_eq hparse, show maxNesting = maxNesting - 1 + 1 from rfl, hposted, Option.some_or]

end ExecutionReport

namespace Sample

/-- A page reports that a call has returned. -/
def returned : ExecutionReport :=
  { uniqueId := "u1", returnedValue := .number (.integer 3), serializedDom := some "<html></html>",
    callStack := some [], error := none }

/-- The same report as the page writes it, with a flag for the error. -/
def returnedMembers : List (String × Document) :=
  [("uniqueId", .string "u1"), ("returnedValue", .number (.integer 3)),
    ("serializedDOM", .string "<html></html>"), ("callStack", .array []), ("error", .bool false)]

/-- A message about that report, which looks like another report itself. -/
def returnedAround : List (String × Document) :=
  ("uniqueId", .string "u2") :: ("returnedValue", .null) ::
    ExecutionReport.posted false "fuzzingResponse" (.object returnedMembers)

end Sample

namespace ExecutionReport

theorem ofLine?_reports_returned : Sample.returned.Sound ∧
    ofLine? (" " ++ (Document.object Sample.returnedMembers).compact ++ "\t") = some Sample.returned ∧
    ofLine? (" " ++ (Document.object (posted false "fuzzingResponse" (.object Sample.returnedMembers))).compact
      ++ "\t") = some Sample.returned ∧
    (decode maxNesting (.object Sample.returnedAround)).map (·.uniqueId) = some "u2" ∧
    ofLine? (" " ++ (Document.object Sample.returnedAround).compact ++ "\t") = some Sample.returned := by
  have hsound : Sample.returned.Sound :=
    ⟨.number (Number.legible_integer (by decide) (by decide)), fun vs hvs v hv => by
      cases hvs
      cases hv⟩
  have htold : Sample.returned.ToldBy Sample.returnedMembers :=
    ⟨by decide, by decide, rfl, .inl rfl, .inl rfl, .inl rfl, .inr ⟨rfl, .bool false, by simp, rfl⟩⟩
  have hblank : ∀ c ∈ " ".toList, Text.isBlank c = true := List.forall_mem_singleton.mpr (by decide)
  have htab : ∀ c ∈ "\t".toList, Text.isBlank c = true := List.forall_mem_singleton.mpr (by decide)
  have hlegible : (Document.object Sample.returnedAround).Legible := by
    refine .object ?_
    simp only [Sample.returnedAround, posted, List.forall_mem_cons]
    exact ⟨.string _, .null, .bool _, .string _, htold.legible hsound, fun _ hm => absurd hm List.not_mem_nil⟩
  obtain ⟨hbare, hposted, hpayload⟩ := ofLine?_reports Sample.returned hsound " " "\t" hblank htab
  refine ⟨hsound, (hbare _ htold).trans (if_pos (by decide)), ?_, rfl, ?_⟩
  · exact (hposted _ _ _ _ htold (.refl _)).trans (if_pos (by decide))
  · refine hpayload _ Sample.returnedAround (.object Sample.returnedMembers) Sample.returned ?_
      ⟨rfl, .inr ⟨.string "fuzzingResponse", rfl, .inr ⟨_, rfl⟩⟩⟩
      ((htold.reads hsound _).trans (if_pos (by decide)))
    rw [Document.trim_compact_object hblank htab, parse_compact hlegible]

end ExecutionReport
end PageProbe
