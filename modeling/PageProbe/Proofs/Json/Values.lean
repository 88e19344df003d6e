import PageProbe.Proofs.Json.Reading

namespace PageProbe.Json

/-- What is inserted in order stays in order. -/
theorem foldl_eq_of_pairwise {α : Type u} {insert : List α → α → List α} {R : α → α → Prop}
    (hinsert : ∀ l a, (∀ b ∈ l, R b a) → insert l a = l ++ [a]) {l : List α} (h : l.Pairwise R) :
    l.foldl insert [] = l := by
  suffices ∀ before, (∀ a ∈ before, ∀ b ∈ l, R a b) → l.foldl insert before = before ++ l from this [] nofun
  induction h with
  | nil => simp
  | @cons a l ha hl ih =>
    intro before hbefore
    have hlast : ∀ b ∈ before, R b a := fun b hb => hbefore b hb a List.mem_cons_self
    have hnext : ∀ b ∈ before ++ [a], ∀ c ∈ l, R b c := by
      simp only [List.forall_mem_append, List.forall_mem_singleton]
      exact ⟨fun b hb c hc => hbefore b hb c (List.mem_cons_of_mem a hc), ha⟩
    rw [List.foldl_cons, hinsert before a hlast, ih _ hnext, List.append_assoc, List.singleton_append]

namespace Value

/-- A value that the library can print and read back: the names of every object are in order, each once,
    and its numbers are legible. -/
inductive Printable : Value → Prop where
  | null : Printable .null
  | bool (b : Bool) : Printable (.bool b)
  | number {n : Number} (h : n.Legible) : Printable (.number n)
  | string (s : String) : Printable (.string s)
  | array {items : List Value} (h : ∀ v ∈ items, Printable v) : Printable (.array items)
  | object {members : List (String × Value)} (hnames : members.Pairwise (·.1 < ·.1))
    (h : ∀ m ∈ members, Printable m.2) : Printable (.object members)

theorem insertMember_eq {name : String} {value : Value} {members : List (String × Value)}
    (h : ∀ m ∈ members, m.1 < name) : insertMember name value members = members ++ [(name, value)] := by
  induction members with
  | nil => rfl
  | cons m ms ih =>
    obtain ⟨hm, hms⟩ := List.forall_mem_cons.mp h
    have hne : name ≠ m.1 := fun heq => String.lt_irrefl _ (heq ▸ hm)
    rw [insertMember, if_neg hne, if_neg (String.lt_asymm hm), ih hms, List.cons_append]

theorem ofMembers_eq {members : List (String × Value)} (h : members.Pairwise (·.1 < ·.1)) :
    ofMembers members = .object members := by
  rw [ofMembers, foldl_eq_of_pairwise (fun _ _ => insertMember_eq) h]

end Value

namespace Document

theorem ofItems_eq_map (vs : List Value) : ofItems vs = vs.map ofValue := by
  induction vs with
  | nil => rfl
  | cons v vs ih => rw [ofItems, ih, List.map_cons]

theorem ofMembers_eq_map (ms : List (String × Value)) : ofMembers ms = ms.map fun m => (m.1, ofValue m.2) := by
  induction ms with
  | nil => rfl
  | cons m ms ih => rw [ofMembers, ih, List.map_cons]

theorem toItems?_eq {ds : List Document} {vs : List Value}
    (h : List.Forall₂ (Decoder.Reads Decoder.value) ds vs) (room : Nat) :
    toItems? room ds = if itemsHeight ds ≤ room then some vs else none := by
  induction h with
  | nil => simp [toItems?, itemsHeight]
  | cons hd _ ih =>
    have hd := hd room
    rw [Decoder.value] at hd
    simp only [toItems?, hd, ih, Option.bind_eq_bind, bind_ite_some, itemsHeight, Nat.max_le, ite_and]
    rfl

theorem toMembers?_eq {members : List (String × Value)}
    (h : ∀ m ∈ members, Decoder.value.Reads (ofValue m.2) m.2) (room : Nat) :
    toMembers? room (ofMembers members) =
      if membersHeight (ofMembers members) ≤ room then some members else none := by
  induction members with
  | nil => simp [toMembers?, ofMembers]
  | cons m ms ih =>
    obtain ⟨hm, hms⟩ := List.forall_mem_cons.mp h
    have hm := hm room
    rw [Decoder.value] at hm
    simp only [ofMembers, toMembers?, hm, ih hms, Option.bind_eq_bind, bind_ite_some, membersHeight_cons_le, ite_and]
    rfl

theorem isSome_both (x : Option α) (y : Option β) (f : α → β → γ) :
    (do let a ← x; let b ← y; return f a b).isSome = (x.isSome && y.isSome) := by
  cases x <;> cases y <;> rfl

theorem toItems?_isSome {ds : List Document} (room : Nat)
    (h : ∀ d ∈ ds, (d.toValue? room).isSome = decide (d.height ≤ room)) :
    (toItems? room ds).isSome = decide (itemsHeight ds ≤ room) := by
  induction ds with
  | nil => simp [toItems?, itemsHeight]
  | cons d ds ih =>
    obtain ⟨hd, hds⟩ := List.forall_mem_cons.mp h
    rw [toItems?, isSome_both, hd, ih hds, itemsHeight, ← Bool.decide_and]
    exact decide_eq_decide.mpr Nat.max_le.symm

theorem toMembers?_isSome {members : List (String × Document)} (room : Nat)
    (h : ∀ m ∈ members, (m.2.toValue? room).isSome = decide (m.2.height ≤ room)) :
    (toMembers? room members).isSome = decide (membersHeight members ≤ room) := by
  induction members with
  | nil => simp [toMembers?]
  | cons m ms ih =>
    obtain ⟨hm, hms⟩ := List.forall_mem_cons.mp h
    rw [toMembers?, isSome_both, hm, ih hms, ← Bool.decide_and]
    exact decide_eq_decide.mpr (membersHeight_cons_le m ms room).symm

/-- Whatever has no literal without a value has a value, if there is room for it. -/
theorem toValue?_isSome {d : Document} (h : d.Legible) (room : Nat) :
    (d.toValue? room).isSome = decide (d.height ≤ room) := by
  induction h generalizing room with
  | null => simp [toValue?, height]
  | bool b => simp [toValue?, height]
  | number _ => simp [toValue?, height]
  | string s => simp [toValue?, height]
  | array _ ih =>
    cases room with
    | zero => simp [toValue?, height]
    | succ room => simp [toValue?, height, toItems?_isSome room fun d hd => ih d hd room]
  | object _ ih =>
    cases room with
    | zero => simp [toValue?, height]
    | succ room => simp [toValue?, height, toMembers?_isSome room fun m hm => ih m hm room]

theorem toValue?_of_le {d : Document} (h : d.Legible) {room : Nat} (hroom : d.height ≤ room) :
    ∃ v, d.toValue? room = some v := by
  rw [← Option.isSome_iff_exists, toValue?_isSome h, decide_eq_true_iff]
  exact hroom

theorem toValue?_of_not_le {d : Document} (h : d.Legible) {room : Nat} (hroom : ¬ d.height ≤ room) :
    d.toValue? room = none := by
  rw [← Option.not_isSome_iff_eq_none, toValue?_isSome h, decide_eq_true_iff]
  exact hroom

end Document

namespace Value.Printable

theorem legible {v : Value} (h : v.Printable) : (Document.ofValue v).Legible := by
  induction h with
  | null => exact .null
  | bool b => exact .bool b
  | number h => exact .number h
  | string s => exact .string s
  | array _ ih =>
    rw [Document.ofValue, Document.ofItems_eq_map]
    exact Document.legible_array_map ih
  | object _ _ ih =>
    rw [Document.ofValue, Document.ofMembers_eq_map]
    refine .object fun m hm => ?_
    obtain ⟨entry, hentry, rfl⟩ := List.mem_map.mp hm
    exact ih entry hentry

/-- A free value is read back, if there is room for it. -/
theorem reads {v : Value} (h : v.Printable) : Decoder.value.Reads (Document.ofValue v) v := by
  induction h with
  | null => exact fun room => by simp [Decoder.value, Document.ofValue, Document.toValue?, Document.height]
  | bool b => exact fun room => by simp [Decoder.value, Document.ofValue, Document.toValue?, Document.height]
  | number _ => exact fun room => by simp [Decoder.value, Document.ofValue, Document.toValue?, Document.height]
  | string s => exact fun room => by simp [Decoder.value, Document.ofValue, Document.toValue?, Document.height]
  | @array items _ ih =>
    have hitems := Document.toItems?_eq (List.forall₂_map_left_iff.mpr (List.forall₂_same.mpr ih))
    intro room
    rw [Decoder.value, Document.ofValue, Document.toValue?, Document.height, Document.ofItems_eq_map, hitems]
    cases room with
    | zero => simp
    | succ room => simp
  | @object members hnames _ ih =>
    intro room
    rw [Decoder.value, Document.ofValue, Document.toValue?, Document.height, Document.toMembers?_eq ih]
    cases room with
    | zero => simp
    | succ room => simp [Value.ofMembers_eq hnames]

end Value.Printable
end PageProbe.Json
