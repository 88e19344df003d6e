import Mathlib.Data.List.Forall2
import PageProbe.Json.Decoder
import PageProbe.Proofs.Json.Text

/-!
A decoder `Reads` a document as a value when it gives that value wherever the document is not nested too
deep, and nothing where it is. The height of a document is exactly the room that it takes, so the parts of
a record can be put together: each takes what it takes, and the record one level more.
-/

namespace PageProbe.Json

/-- What a decoder makes of a document: a value if there is room for the document, and else nothing. -/
def Decoder.Reads (decode : Decoder α) (d : Document) (a : α) : Prop :=
  ∀ room, decode room d = if d.height ≤ room then some a else none

/-- A value comes back from its document at any depth, and from the text of the document if that nests no
    more levels than a text may. -/
def Decoder.Restores (decode : Decoder α) (d : Document) (a : α) : Prop :=
  decode.unbounded d = some a ∧
    decode.ofText d.compact = if d.height ≤ maxNesting then some a else none

/-- Neither a document nor its text is decoded. -/
def Decoder.Refuses (decode : Decoder α) (d : Document) : Prop :=
  decode.unbounded d = none ∧ decode.ofText d.compact = none

namespace Decoder

variable {decode : Decoder α} {d : Document} {a : α}

theorem Reads.restores (h : decode.Reads d a) (hd : d.Legible) : decode.Restores d a := by
  refine ⟨?_, ?_⟩
  · rw [unbounded, h, if_pos (Nat.le_refl _)]
  · rw [ofText, parse_compact hd, Option.bind_some, h]

theorem refuses_of_none (h : ∀ room, decode room d = none) (hd : d.Legible) : decode.Refuses d := by
  refine ⟨h _, ?_⟩
  rw [ofText, parse_compact hd, Option.bind_some, h]

theorem Reads.map {f : α → β} (h : decode.Reads d a) : Reads (fun room d => (decode room d).map f) d (f a) := by
  intro room
  change (decode room d).map f = _
  rw [h room]
  split <;> rfl

end Decoder

/-- What is decoded behind a part is decoded if the part fits. -/
@[simp] theorem bind_ite_some {p : Prop} [Decidable p] (a : α) (f : α → Option β) :
    (if p then some a else none).bind f = if p then f a else none := by
  split <;> rfl

theorem mapM_eq_some {f : α → Option β} {g : α → β} {as : List α} (h : ∀ a ∈ as, f a = some (g a)) :
    as.mapM f = some (as.map g) := by
  induction as with
  | nil => rfl
  | cons a as ih =>
    obtain ⟨ha, has⟩ := List.forall_mem_cons.mp h
    rw [List.mapM_cons, ha, ih has]
    rfl

theorem exists_of_mem_mapM {f : α → Option β} {as : List α} {bs : List β} (h : as.mapM f = some bs) {b : β}
    (hb : b ∈ bs) : ∃ a ∈ as, f a = some b := by
  induction as generalizing bs with
  | nil =>
    cases h
    cases hb
  | cons a as ih =>
    rw [List.mapM_cons] at h
    obtain ⟨c, hc, h⟩ := Option.bind_eq_some_iff.mp h
    obtain ⟨cs, hcs, h⟩ := Option.bind_eq_some_iff.mp h
    cases h
    rcases List.mem_cons.mp hb with rfl | hb
    · exact ⟨a, List.mem_cons_self, hc⟩
    · obtain ⟨a', ha', hf⟩ := ih hcs hb
      exact ⟨a', List.mem_cons_of_mem a ha', hf⟩

namespace Document

@[simp] theorem membersHeight_nil_le (room : Nat) : membersHeight [] ≤ room ↔ True := by
  simp [membersHeight]

@[simp] theorem membersHeight_cons_le (m : String × Document) (ms : List (String × Document))
    (room : Nat) :
    membersHeight (m :: ms) ≤ room ↔ m.2.height ≤ room ∧ membersHeight ms ≤ room := Nat.max_le

@[simp] theorem membersHeight_append_le (ms ms' : List (String × Document)) (room : Nat) :
    membersHeight (ms ++ ms') ≤ room ↔ membersHeight ms ≤ room ∧ membersHeight ms' ≤ room := by
  induction ms with
  | nil => simp
  | cons m ms ih => simp only [List.cons_append, membersHeight_cons_le, ih, and_assoc]

theorem membersHeight_le_iff (ms : List (String × Document)) (room : Nat) :
    membersHeight ms ≤ room ↔ ∀ m ∈ ms, m.2.height ≤ room := by
  induction ms with
  | nil => simp
  | cons m ms ih => simp [ih]

/-- Both names are variables, since matching two literal names with one another is slow. -/
theorem lookup_optional (name name' : String) (write : α → Document) (o : Option α) :
    (optional name write o).lookup name' = if name' == name then o.map write else none := by
  cases o with
  | none => simp [optional]
  | some a => cases h : name' == name <;> simp [optional, List.lookup_cons, h]

theorem optional_names (name : String) (write : α → Document) (o : Option α) :
    ((optional name write o).map Prod.fst).Sublist [name] := by
  cases o <;> simp [optional]

end Document

namespace Decoder

variable {decode : Decoder α} {write : α → Document}

theorem reads_string (s : String) : Reads string (.string s) s := fun room => by
  simp [string, Document.height]

theorem reads_bool (b : Bool) : Reads bool (.bool b) b := fun room => by
  simp [bool, Document.height]

theorem reads_nat {n : Nat} (h : n < Nat.pow 2 64) : Reads nat (.ofNat n) n := fun room => by
  simp only [nat, Document.ofNat, Document.height, Nat.zero_le, if_true]
  exact if_pos h

theorem reads_array {ds : List Document} {as : List α} (h : List.Forall₂ decode.Reads ds as) :
    Reads (array decode) (.array ds) as := by
  intro room
  cases room with
  | zero => simp [array, Document.height]
  | succ room =>
    simp only [array, Document.height, Nat.add_le_add_iff_right]
    induction h with
    | nil => simp [Document.itemsHeight]
    | cons hd _ ih =>
      simp only [List.mapM_cons, hd room, ih, Option.bind_eq_bind, bind_ite_some, Document.itemsHeight,
        Nat.max_le, ite_and]
      rfl

theorem reads_array_map {as : List α} (h : ∀ a ∈ as, decode.Reads (write a) a) :
    Reads (array decode) (.array (as.map write)) as :=
  reads_array (List.forall₂_map_left_iff.mpr (List.forall₂_same.mpr h))

theorem reads_strings (items : List String) : Reads (array string) (.strings items) items :=
  reads_array_map fun s _ => reads_string s

/-- The items of an array are decoded in less room. -/
theorem array_congr {decode decode' : Decoder α} {room : Nat}
    (h : ∀ r < room, ∀ d, decode r d = decode' r d) (d : Document) :
    array decode room d = array decode' room d := by
  cases room with
  | zero => cases d <;> rfl
  | succ room => cases d with
    | array items => rw [array, array, funext (h room (Nat.lt_succ_self room))]
    | _ => rfl

/-- A value that may be missing, and that is not written as `null` when it is there. -/
theorem reads_nullable {o : Option α} (h : ∀ a ∈ o, decode.Reads (write a) a)
    (hnull : ∀ a ∈ o, write a ≠ .null) : Reads (option decode) (Document.nullable write o) o := by
  intro room
  cases o with
  | none => simp [Document.nullable, option, Document.height]
  | some a =>
    rw [Document.nullable, option.eq_2 _ _ _ (hnull a rfl), h a rfl room]
    split <;> rfl

end Decoder

namespace Field

/-- The field for a member that an object has or has not. -/
def ofMember (room : Nat) : Option Document → Field
  | some d => .present room d
  | none => .unnamed

variable {decode : Decoder α} {d : Document} {a : α}

theorem required_ofMember (h : decode.Reads d a) (room : Nat) :
    (ofMember room (some d)).required decode = if d.height ≤ room then some a else none := h room

theorem orElse_ofMember (h : decode.Reads d a) (default : α) (room : Nat) :
    (ofMember room (some d)).orElse default decode = if d.height ≤ room then some a else none := h room

theorem nullable_ofMember {o : Option α} (h : (Decoder.option decode).Reads d o) (room : Nat) :
    (ofMember room (some d)).nullable decode = if d.height ≤ room then some o else none := h room

/-- A member that is left out when it has no value of its own. -/
theorem orElse_ofMember_default (name : String) (write : α → Document) {o : Option α}
    (h : ∀ a ∈ o, decode.Reads (write a) a) (default : α) (room : Nat) :
    (ofMember room (o.map write)).orElse default decode =
      if Document.membersHeight (Document.optional name write o) ≤ room then some (o.getD default) else none := by
  cases o with
  | none => simp [ofMember, orElse, Document.optional]
  | some a =>
    simp only [Document.optional, Document.membersHeight_cons_le, Document.membersHeight_nil_le, and_true]
    exact h a rfl room

/-- A member that is left out when it has no value. -/
theorem orElse_ofMember_optional (name : String) (write : α → Document) {o : Option α}
    (h : ∀ a ∈ o, decode.Reads (write a) a) (hnull : ∀ a ∈ o, write a ≠ .null) (room : Nat) :
    (ofMember room (o.map write)).orElse none (Decoder.option decode) =
      if Document.membersHeight (Document.optional name write o) ≤ room then some o else none := by
  cases o with
  | none => simp [ofMember, orElse, Document.optional]
  | some a =>
    simp only [Document.optional, Document.membersHeight_cons_le, Document.membersHeight_nil_le, and_true]
    exact orElse_ofMember (Decoder.reads_nullable h hnull) none room

end Field

namespace Record

theorem room_of_pick {room : Nat} {members : List (String × Document)} {name : String} {r : Nat}
    {d : Document} (h : pick room members name = some (.present r d)) : r = room := by
  rw [pick] at h
  split at h <;> cases h
  rfl

/-- The fields of a record are decoded in less room. -/
theorem room_of_mem_fields {names : List String} {strict : Bool} {room : Nat} {d : Document}
    {fs : List Field} (h : fields names strict room d = some fs) {r : Nat} {d' : Document}
    (hfield : .present r d' ∈ fs) : r < room := by
  cases room with
  | zero => cases d <;> cases h
  | succ room =>
    refine Nat.lt_succ_of_le (Nat.le_of_eq ?_)
    cases d with
    | object members =>
      rw [fields] at h
      split at h
      · cases h
      · obtain ⟨name, -, hname⟩ := exists_of_mem_mapM h hfield
        exact room_of_pick hname
    | array items =>
      rw [fields] at h
      split at h
      · cases h
      · obtain ⟨i, -, hi⟩ := List.mem_map.mp (Option.some.inj h ▸ hfield)
        rw [place] at hi
        split at hi <;> cases hi
        rfl
    | _ => cases h

theorem pick_eq {members : List (String × Document)} (h : (members.map Prod.fst).Nodup) (room : Nat)
    (name : String) : pick room members name = some (Field.ofMember room (members.lookup name)) := by
  induction members with
  | nil => rfl
  | cons m ms ih =>
    obtain ⟨n, d⟩ := m
    obtain ⟨hn, hms⟩ := List.nodup_cons.mp h
    by_cases hname : n = name
    · have hothers : ms.filter (fun m => m.1 == name) = [] := by
        refine List.filter_eq_nil_iff.mpr fun m hm hmname => hn ?_
        exact List.mem_map.mpr ⟨m, hm, (beq_iff_eq.mp hmname).trans hname.symm⟩
      simp [pick, hname, hothers, Field.ofMember]
    · have hne : (name == n) = false := beq_false_of_ne (Ne.symm hname)
      rw [List.lookup_cons, hne, ← ih hms, pick, List.filter_cons_of_neg (by simpa using hname), pick]

/-- An object whose members are named by some of the names of a record has the fields that it has members
    for. -/
theorem fields_object {names : List String} {members : List (String × Document)} (hnames : names.Nodup)
    (h : (members.map Prod.fst).Sublist names) (room : Nat) :
    fields names false (room + 1) (.object members) =
      some (names.map fun name => Field.ofMember room (members.lookup name)) := by
  rw [fields, Bool.false_and, if_neg (by decide)]
  exact mapM_eq_some fun name _ => pick_eq (h.nodup hnames) room name

/-- A record takes one level more than its members, which are named by some of its fields. -/
theorem reads {names : List String} {members : List (String × Document)} {build : List Field → Option α}
    {a : α} (hnames : names.Nodup) (h : (members.map Prod.fst).Sublist names)
    (hbuild : ∀ room, build (names.map fun name => Field.ofMember room (members.lookup name)) =
      if Document.membersHeight members ≤ room then some a else none) :
    Decoder.Reads (fun room d => fields names false room d >>= build) (.object members) a := by
  intro room
  cases room with
  | zero => simp [fields, Document.height]
  | succ room =>
    simp only [fields_object hnames h, Option.bind_eq_bind, Option.bind_some, hbuild, Document.height,
      Nat.add_le_add_iff_right]

end Record

/-- An object whose members are entries of their own, none of them nested. -/
theorem Decoder.reads_entries {decode : Decoder α} {entry : Nat → String × Document → Option γ}
    {build : List γ → α} (hclosed : ∀ d, decode 0 d = none)
    (hopen : ∀ room ms, decode (room + 1) (.object ms) = ms.mapM (entry room) >>= fun es => pure (build es))
    {entries : List γ} (write : γ → String × Document) (hflat : ∀ e ∈ entries, (write e).2.height = 0)
    (hentry : ∀ room, ∀ e ∈ entries, entry room (write e) = some e) :
    decode.Reads (.object (entries.map write)) (build entries) := by
  intro room
  cases room with
  | zero => simp [hclosed, Document.height]
  | succ room =>
    have hheight : Document.membersHeight (entries.map write) ≤ room := by
      refine (Document.membersHeight_le_iff _ room).mpr fun m hm => ?_
      obtain ⟨e, he, rfl⟩ := List.mem_map.mp hm
      rw [hflat e he]
      exact Nat.zero_le room
    have hentries : (entries.map write).mapM (entry room) = some (entries.map id) := by
      rw [List.mapM_map]
      exact mapM_eq_some (hentry room)
    rw [hopen, hentries, List.map_id, Document.height, if_pos (Nat.succ_le_succ hheight)]
    rfl

end PageProbe.Json
