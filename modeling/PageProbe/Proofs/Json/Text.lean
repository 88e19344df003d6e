import PageProbe.Json.Parser
import PageProbe.Json.Printer
import PageProbe.Proofs.Number.Decimal

/-!
The text of a document is read as that document: the writer escapes what the reader takes for the end of
a text, commas and brackets end what stands before them, and the reader's fuel, which is measured by the
text, is enough. Nothing is said here about how doubles are rounded; a number is `Legible` when the reader
makes the same number of its text, and the integers of 64 bits are.
-/

namespace PageProbe.Json

namespace Parser

theorem hexDigit?_digitChar : ∀ n < 16, hexDigit? (Nat.digitChar n) = some n := by
  decide

/-- The two digits of a control character stand for it. -/
theorem hexUnit?_control {c : Char} (h : c.toNat < 0x20) :
    hexUnit? '0' '0' (Nat.digitChar (c.toNat / 16)) (Nat.digitChar (c.toNat % 16)) = some c.toNat := by
  have hzero : hexDigit? '0' = some 0 := rfl
  rw [hexUnit?, hzero, hexDigit?_digitChar _ (by omega), hexDigit?_digitChar _ (by omega)]
  simp only [Option.pure_def, Option.bind_eq_bind, Option.bind_some, Option.some.injEq]
  omega

theorem units_plain {c : Char} (hquote : c ≠ '"') (hslash : c ≠ '\\') (h : ¬ c.toNat < 0x20)
    (rest : List Char) : units (c :: rest) = (units rest).map fun (us, r) => (.char c :: us, r) := by
  rw [units.eq_5 _ _ (by simpa using hquote) (by simp [hslash]) (by simp [hslash]), if_neg h]
  cases units rest <;> rfl

theorem units_escape {e c : Char} (hu : e ≠ 'u') (h : simpleEscape? e = some c) (rest : List Char) :
    units ('\\' :: e :: rest) = (units rest).map fun (us, r) => (.char c :: us, r) := by
  rw [units.eq_4 _ _ (by simp [hu]), h]
  cases units rest <;> rfl

theorem units_control {c : Char} (h : c.toNat < 0x20) (rest : List Char) :
    units ('\\' :: 'u' :: '0' :: '0' :: Nat.digitChar (c.toNat / 16) :: Nat.digitChar (c.toNat % 16) ::
      rest) = (units rest).map fun (us, r) => (.char c :: us, r) := by
  have hchar : Unit16.ofNat c.toNat = .char c := by
    rw [Unit16.ofNat, if_neg (by omega), if_neg (by omega), Char.ofNat_toNat]
  rw [units.eq_3, hexUnit?_control h]
  simp only [Option.bind_eq_bind, Option.bind_some, hchar]
  cases units rest <;> rfl

/-- One character behind an opening quote is read back, with whatever follows it. -/
theorem units_escapeChar (c : Char) (rest : List Char) :
    units (escapeChar c ++ rest) = (units rest).map fun (us, r) => (.char c :: us, r) := by
  simp only [escapeChar]
  split_ifs with hquote hslash hline hreturn htab hback hfeed hcontrol
  · exact units_escape (by simp) (by simp [hquote, simpleEscape?]) rest
  · exact units_escape (by simp) (by simp [hslash, simpleEscape?]) rest
  · exact hline ▸ units_escape (by decide) rfl rest
  · exact hreturn ▸ units_escape (by decide) rfl rest
  · exact htab ▸ units_escape (by decide) rfl rest
  · exact hback ▸ units_escape (by decide) rfl rest
  · exact hfeed ▸ units_escape (by decide) rfl rest
  · exact units_control hcontrol rest
  · exact units_plain hquote hslash hcontrol rest

theorem units_quoted (cs rest : List Char) :
    units (cs.flatMap escapeChar ++ '"' :: rest) = some (cs.map .char, rest) := by
  induction cs with
  | nil => rfl
  | cons c cs ih =>
    rw [List.flatMap_cons, List.append_assoc, units_escapeChar, ih]
    rfl

theorem joinUnits_map_char (cs : List Char) : joinUnits (cs.map .char) = some cs := by
  induction cs with
  | nil => rfl
  | cons c cs ih => simp [joinUnits, ih]

/-- A text behind its opening quote is read back. -/
theorem text_quoted (s : String) (rest : List Char) :
    text (s.toList.flatMap escapeChar ++ '"' :: rest) = some (some s, rest) := by
  simp [text, units_quoted, joinUnits_map_char]

theorem quote_toList (s : String) : (quote s).toList = '"' :: (s.toList.flatMap escapeChar ++ ['"']) := by
  simp [quote]

/-- What may follow a number: nothing that could still be a part of it. -/
def Delimited : List Char → Prop
  | [] => True
  | c :: _ => c.isDigit = false ∧ c ≠ '.' ∧ c ≠ 'e' ∧ c ≠ 'E'

/-- What follows a value in a list does. -/
theorem delimited_mark {c : Char} (h : c ∈ [',', ']', '\x7d']) (cs : List Char) : Delimited (c :: cs) := by
  revert c
  simp [Delimited]

/-- Digits end where no digit follows. -/
theorem span_digits {ds rest : List Char} (hds : ∀ c ∈ ds, c.isDigit = true) (hrest : Delimited rest) :
    (ds ++ rest).takeWhile Char.isDigit = ds ∧ (ds ++ rest).dropWhile Char.isDigit = rest := by
  rw [List.takeWhile_append_of_pos hds, List.dropWhile_append_of_pos hds]
  cases rest with
  | nil => simp
  | cons c rest => simp [hrest.1]

/-- Digits of a number below `2^64` are all in the significand. -/
theorem significand_eq {ds : List Char} {acc : Nat} (h : Nat.ofDigitChars 10 ds acc < Nat.pow 2 64)
    (count : Nat) : significand acc count ds = (Nat.ofDigitChars 10 ds acc, count + ds.length, []) := by
  induction ds generalizing acc count with
  | nil => rfl
  | cons c ds ih =>
    rw [Nat.ofDigitChars_cons, Nat.mul_comm 10] at h ⊢
    have hnext : acc * 10 + (c.toNat - '0'.toNat) < Nat.pow 2 64 := by
      rw [Nat.ofDigitChars_eq_ofDigitChars_zero] at h
      have hpow := Nat.le_mul_of_pos_left (acc * 10 + (c.toNat - '0'.toNat)) (Nat.pow_pos (n := ds.length)
        (show 0 < 10 by decide))
      omega
    rw [significand]
    simp only [if_pos hnext, ih h, List.length_cons]
    simp only [Nat.add_assoc, Nat.add_comm 1]

theorem significand_toDigits {n : Nat} (h : n < Nat.pow 2 64) :
    significand 0 0 (Nat.toDigits 10 n) = (n, (Nat.toDigits 10 n).length, []) := by
  have hn : Nat.ofDigitChars 10 (Nat.toDigits 10 n) 0 = n := Nat.ofDigitChars_ten_toDigits
  rw [significand_eq (hn.symm ▸ h), hn, Nat.zero_add]

/-- A number without a point and without an exponent. -/
theorem number_digits {negative : Bool} {cs rest : List Char} {n : Nat} {m : Number}
    (hcs : signed cs = (negative, Nat.toDigits 10 n ++ rest)) (hrest : Delimited rest)
    (hm : numberOf negative (Nat.toDigits 10 n) none none = some m) :
    number cs = some (.number m, rest) := by
  obtain ⟨d, ds, hds, hdigit, hlead⟩ := Number.toDigits_eq_cons n
  obtain ⟨htake, hdrop⟩ := span_digits (fun c hc => Number.isDigit_of_mem_toDigits (n := n) hc) hrest
  have hwhole : ((Nat.toDigits 10 n).isEmpty ||
      ((Nat.toDigits 10 n).head? == some '0' && (Nat.toDigits 10 n).length > 1)) = false := by
    by_cases hzero : d = '0'
    · simp [hds, hlead hzero]
    · simp [hds, hzero]
  have hfraction : fraction? rest = some (none, rest) := by
    cases rest with
    | nil => rfl
    | cons c rest => rw [fraction?.eq_2 _ (by simp [hrest.2.1])]
  have hexponent : exponent? rest = some (none, rest) := by
    cases rest with
    | nil => rfl
    | cons c rest =>
      obtain ⟨-, -, he, hE⟩ := hrest
      simp [exponent?, he, hE]
  simp only [number, hcs, htake, hdrop, hwhole, Bool.false_eq_true, if_false, hfraction, hexponent,
    Option.bind_eq_bind, Option.bind_some, hm, Option.pure_def]

theorem number_natural {n : Nat} (h : n < Nat.pow 2 64) {rest : List Char} (hrest : Delimited rest) :
    number (Nat.toDigits 10 n ++ rest) = some (.number (.integer n), rest) := by
  obtain ⟨d, ds, hds, hdigit, -⟩ := Number.toDigits_eq_cons n
  have hsigned : signed (Nat.toDigits 10 n ++ rest) = (false, Nat.toDigits 10 n ++ rest) := by
    have hd : d ≠ '-' := by rintro rfl; cases hdigit
    rw [hds, List.cons_append, signed.eq_2 _ (by simp [hd])]
  exact number_digits hsigned hrest (by simp [numberOf, significand_toDigits h])

theorem number_negative {n : Nat} (hpos : 0 < n) (h : n ≤ Nat.pow 2 63) {rest : List Char}
    (hrest : Delimited rest) :
    number ('-' :: Nat.toDigits 10 n ++ rest) = some (.number (.integer (-n)), rest) := by
  have hhead : ¬ (n = 0 ∨ n > Nat.pow 2 63) := by omega
  have hsignificand := significand_toDigits (Nat.lt_of_le_of_lt h (by decide : Nat.pow 2 63 < Nat.pow 2 64))
  exact number_digits rfl hrest (by simp only [numberOf, hsignificand, if_neg hhead]; rfl)

end Parser

/-- The reader makes the same number of a number's text, whatever delimits it. -/
def Number.Legible (n : Number) : Prop :=
  ∀ rest, Parser.Delimited rest → Parser.number (n.write.toList ++ rest) = some (.number n, rest)

/-- The integers of 64 bits, with a sign or without. -/
theorem Number.legible_integer {i : Int} (hlow : -(2 ^ 63) ≤ i) (hhigh : i < 2 ^ 64) :
    (Number.integer i).Legible := by
  intro rest hrest
  rw [Number.write]
  cases i with
  | ofNat n =>
    rw [PageProbe.Number.integer, PageProbe.Number.natural_toList]
    exact Parser.number_natural (by simpa using hhigh) hrest
  | negSucc n =>
    rw [PageProbe.Number.integer, String.toList_append, PageProbe.Number.natural_toList]
    exact Parser.number_negative (Nat.succ_pos n) (by simp at hlow ⊢; omega) hrest

/-- Every number of a document is legible, and the document has a value. -/
inductive Document.Legible : Document → Prop where
  | null : Legible .null
  | bool (b : Bool) : Legible (.bool b)
  | number {n : Number} (h : n.Legible) : Legible (.number n)
  | string (s : String) : Legible (.string s)
  | array {items : List Document} (h : ∀ d ∈ items, Legible d) : Legible (.array items)
  | object {members : List (String × Document)} (h : ∀ m ∈ members, Legible m.2) :
    Legible (.object members)

namespace Parser

theorem number_head {cs rest : List Char} {d : Document} (h : number cs = some (d, rest)) :
    ∃ c cs', cs = c :: cs' ∧ (c = '-' ∨ c.isDigit = true) := by
  cases cs with
  | nil => cases h
  | cons c cs =>
    refine ⟨c, cs, rfl, ?_⟩
    by_contra hc
    obtain ⟨hsign, hdigit⟩ := not_or.mp hc
    rw [number, signed.eq_2 _ (by simp [hsign])] at h
    simp [hdigit] at h

/-- The text of a document reads back as the document. Twice its length is fuel enough: a value spends one
    unit on itself, and behind its bracket one for each item, before which there is a comma. -/
def ReadsBack (d : Document) : Prop :=
  ∀ fuel rest, 2 * d.compact.toList.length ≤ fuel → Delimited rest →
    value fuel (d.compact.toList ++ rest) = some (d, rest)

theorem isBlank_of_isDigit {c : Char} (h : c.isDigit = true) : isBlank c = false := by
  by_contra hblank
  simp only [Bool.not_eq_false, isBlank, Bool.or_eq_true, beq_iff_eq] at hblank
  rcases hblank with ((rfl | rfl) | rfl) | rfl <;> cases h

theorem skipBlanks_cons {c : Char} (h : isBlank c = false) (cs : List Char) :
    skipBlanks (c :: cs) = c :: cs := by
  simp [skipBlanks, h]

theorem compact_head {d : Document} (h : d.Legible) :
    ∃ c cs, d.compact.toList = c :: cs ∧ isBlank c = false ∧ c ≠ ']' := by
  cases h with
  | null => exact ⟨_, _, rfl, rfl, by decide⟩
  | bool b => cases b <;> exact ⟨_, _, rfl, rfl, by decide⟩
  | string s => exact ⟨_, _, quote_toList s, rfl, by decide⟩
  | array => simp [Document.compact, isBlank]
  | object => simp [Document.compact, isBlank]
  | number h =>
    obtain ⟨c, cs, hcs, hc⟩ := number_head (h [] trivial)
    rw [List.append_nil] at hcs
    refine ⟨c, cs, hcs, ?_, ?_⟩
    · rcases hc with rfl | hdigit
      · rfl
      · exact isBlank_of_isDigit hdigit
    · rintro rfl
      simp at hc

/-- The items of an array, up to its closing bracket, are read back if each of them is. -/
theorem items_compact {ds : List Document} (hds : ∀ d ∈ ds, ReadsBack d) (hne : ds ≠ [])
    (fuel : Nat) (rest : List Char)
    (hfuel : 2 * (Document.compactItems true ds).toList.length + 1 ≤ fuel) :
    items fuel ((Document.compactItems true ds).toList ++ ']' :: rest) = some (ds, rest) := by
  induction ds generalizing fuel with
  | nil => exact absurd rfl hne
  | cons d ds ih =>
    obtain ⟨hd, hds⟩ := List.forall_mem_cons.mp hds
    obtain ⟨fuel, rfl⟩ : ∃ n, fuel = n + 1 := ⟨fuel - 1, by omega⟩
    cases ds with
    | nil =>
      simp only [Document.compactItems, if_true, String.empty_append, String.append_empty] at hfuel ⊢
      rw [items, hd fuel _ (by omega) (delimited_mark (by simp) rest)]
      rfl
    | cons e es =>
      have htext : (Document.compactItems true (d :: e :: es)).toList =
          d.compact.toList ++ ',' :: (Document.compactItems true (e :: es)).toList := by
        simp [Document.compactItems]
      rw [htext, List.length_append, List.length_cons] at hfuel
      have hitems := ih hds (by simp) fuel (by omega)
      rw [htext, List.append_assoc, List.cons_append, items,
        hd fuel _ (by omega) (delimited_mark (by simp) _)]
      simp only [Option.bind_eq_bind, Option.bind_some, skipBlanks_cons (c := ',') rfl, hitems]
      rfl

/-- A member whose value is read back leaves what follows its value. -/
theorem members_member {d : Document} {fuel : Nat} {rest : List Char}
    (hd : value fuel (d.compact.toList ++ rest) = some (d, rest)) (name : String) :
    members (fuel + 1) ((quote name).toList ++ ':' :: (d.compact.toList ++ rest)) =
      match skipBlanks rest with
      | '\x7d' :: rest => some ([(name, d)], rest)
      | ',' :: rest => do
        let (ms, rest) ← members fuel rest
        return ((name, d) :: ms, rest)
      | _ => none := by
  rw [members, quote_toList, List.cons_append, skipBlanks_cons rfl, List.append_assoc, List.singleton_append]
  simp only [text_quoted, Option.bind_eq_bind, Option.bind_some, skipBlanks_cons (c := ':') rfl, hd]
  rfl

/-- The members of an object, up to its closing brace, are read back if each of their values is. -/
theorem members_compact {ms : List (String × Document)} (hms : ∀ m ∈ ms, ReadsBack m.2) (hne : ms ≠ [])
    (fuel : Nat) (rest : List Char)
    (hfuel : 2 * (Document.compactMembers true ms).toList.length + 1 ≤ fuel) :
    members fuel ((Document.compactMembers true ms).toList ++ '\x7d' :: rest) = some (ms, rest) := by
  induction ms generalizing fuel with
  | nil => exact absurd rfl hne
  | cons m ms ih =>
    obtain ⟨name, d⟩ := m
    obtain ⟨hd, hms⟩ : ReadsBack d ∧ ∀ m ∈ ms, ReadsBack m.2 := List.forall_mem_cons.mp hms
    obtain ⟨fuel, rfl⟩ : ∃ n, fuel = n + 1 := ⟨fuel - 1, by omega⟩
    cases ms with
    | nil =>
      have htext : (Document.compactMembers true [(name, d)]).toList =
          (quote name).toList ++ ':' :: d.compact.toList := by
        simp [Document.compactMembers]
      rw [htext, List.length_append, List.length_cons] at hfuel
      rw [htext, List.append_assoc, List.cons_append,
        members_member (hd fuel _ (by omega) (delimited_mark (by simp) rest))]
      rfl
    | cons e es =>
      have htext : (Document.compactMembers true ((name, d) :: e :: es)).toList =
          (quote name).toList ++ ':' :: (d.compact.toList ++
            ',' :: (Document.compactMembers true (e :: es)).toList) := by
        simp [Document.compactMembers]
      rw [htext, List.length_append, List.length_cons, List.length_append, List.length_cons] at hfuel
      have hmembers := ih hms (by simp) fuel (by omega)
      rw [htext, List.append_assoc, List.cons_append, List.append_assoc, List.cons_append,
        members_member (hd fuel _ (by omega) (delimited_mark (by simp) _)), skipBlanks_cons rfl]
      simp only [hmembers, Option.bind_eq_bind, Option.bind_some]
      rfl

/-- No text is empty, so that there always is a unit of fuel. -/
theorem readsBack_of_succ {d : Document} (h : d.Legible)
    (hread : ∀ fuel rest, 2 * d.compact.toList.length ≤ fuel + 1 → Delimited rest →
      value (fuel + 1) (d.compact.toList ++ rest) = some (d, rest)) : ReadsBack d := by
  intro fuel rest hfuel hrest
  obtain ⟨c, cs, hhead, -, -⟩ := compact_head h
  have hlength : d.compact.toList.length = cs.length + 1 := by rw [hhead, List.length_cons]
  obtain ⟨fuel, rfl⟩ : ∃ n, fuel = n + 1 := ⟨fuel - 1, by omega⟩
  exact hread fuel rest hfuel hrest

theorem value_array {c : Char} (hblank : isBlank c = false) (hclose : c ≠ ']') (fuel : Nat) (cs : List Char) :
    value (fuel + 1) ('[' :: c :: cs) = (items fuel (c :: cs)).map fun (ds, rest) => (.array ds, rest) := by
  rw [value, skipBlanks_cons rfl]
  simp only [skipBlanks_cons hblank]
  split
  · next h => exact absurd (List.cons.inj h).1 hclose
  · rfl

theorem value_object (fuel : Nat) (cs : List Char) :
    value (fuel + 1) ('\x7b' :: '"' :: cs) =
      (members fuel ('"' :: cs)).map fun (ms, rest) => (.object ms, rest) := by
  rw [value, skipBlanks_cons rfl]
  simp only [skipBlanks_cons (c := '"') rfl]
  rfl

/-- A sign or a digit starts nothing but a number. -/
theorem value_number {c : Char} (h : c = '-' ∨ c.isDigit = true) (fuel : Nat) (cs : List Char) :
    value (fuel + 1) (c :: cs) = number (c :: cs) := by
  have hblank : isBlank c = false := by
    rcases h with rfl | h
    · rfl
    · exact isBlank_of_isDigit h
  rw [value, skipBlanks_cons hblank]
  split
  all_goals first
    | rfl
    | next heq => obtain ⟨rfl, -⟩ := List.cons.inj heq; simp at h

theorem readsBack_array {ds : List Document} (hds : ∀ d ∈ ds, d.Legible) (hread : ∀ d ∈ ds, ReadsBack d) :
    ReadsBack (.array ds) := by
  refine readsBack_of_succ (.array hds) fun fuel rest hfuel hrest => ?_
  have htext : (Document.array ds).compact.toList =
      '[' :: ((Document.compactItems true ds).toList ++ [']']) := by
    simp [Document.compact]
  rw [htext, List.length_cons, List.length_append, List.length_singleton] at hfuel
  rw [htext, List.cons_append, List.append_assoc, List.singleton_append]
  cases ds with
  | nil => rfl
  | cons d ds =>
    have hitems := items_compact hread (by simp) fuel rest (by omega)
    obtain ⟨c, cs, hhead, hblank, hclose⟩ := compact_head (hds d List.mem_cons_self)
    simp only [Document.compactItems, if_true, String.empty_append, String.toList_append, hhead,
      List.cons_append] at hitems ⊢
    rw [value_array hblank hclose, hitems]
    rfl

theorem readsBack_object {ms : List (String × Document)} (hms : ∀ m ∈ ms, m.2.Legible)
    (hread : ∀ m ∈ ms, ReadsBack m.2) : ReadsBack (.object ms) := by
  refine readsBack_of_succ (.object hms) fun fuel rest hfuel hrest => ?_
  have htext : (Document.object ms).compact.toList =
      '\x7b' :: ((Document.compactMembers true ms).toList ++ ['\x7d']) := by
    simp [Document.compact]
  rw [htext, List.length_cons, List.length_append, List.length_singleton] at hfuel
  rw [htext, List.cons_append, List.append_assoc, List.singleton_append]
  cases ms with
  | nil => rfl
  | cons m ms =>
    have hmembers := members_compact hread (by simp) fuel rest (by omega)
    simp only [Document.compactMembers, if_true, String.empty_append, String.toList_append, quote_toList,
      List.cons_append] at hmembers ⊢
    rw [value_object, hmembers]
    rfl

/-- A legible document reads back from its text. -/
theorem readsBack_of_legible {d : Document} (h : d.Legible) : ReadsBack d := by
  induction h with
  | null => exact readsBack_of_succ .null fun _ _ _ _ => rfl
  | bool b => exact readsBack_of_succ (.bool b) fun _ _ _ _ => by cases b <;> rfl
  | array hitems ih => exact readsBack_array hitems ih
  | object hmembers ih => exact readsBack_object hmembers ih
  | string s =>
    refine readsBack_of_succ (.string s) fun fuel rest hfuel hrest => ?_
    rw [Document.compact, quote_toList, List.cons_append, List.append_assoc, List.singleton_append, value,
      skipBlanks_cons rfl]
    simp only [text_quoted, Option.bind_eq_bind, Option.bind_some, Option.pure_def]
  | number h =>
    refine readsBack_of_succ (.number h) fun fuel rest hfuel hrest => ?_
    obtain ⟨c, cs, hcs, hc⟩ := number_head (h [] trivial)
    rw [List.append_nil] at hcs
    rw [Document.compact, hcs, List.cons_append, value_number hc, ← List.cons_append, ← hcs, h rest hrest]

end Parser

/-- Reading the compact text of a legible document gives the document. -/
theorem parse_compact {d : Document} (h : d.Legible) : parse d.compact = some d := by
  have hvalue := Parser.readsBack_of_legible h (2 * d.compact.toList.length + 2) [] (by omega) trivial
  rw [List.append_nil] at hvalue
  simp only [parse, hvalue, Option.bind_eq_bind, Option.bind_some, Parser.skipBlanks, List.dropWhile_nil,
    List.isEmpty_nil, if_true]

namespace Document

theorem legible_ofNat {n : Nat} (h : n < Nat.pow 2 64) : (ofNat n).Legible := by
  have hhigh : n < 2 ^ 64 := h
  exact .number (Number.legible_integer (by omega) (by omega))

theorem legible_array_map {write : α → Document} {items : List α} (h : ∀ a ∈ items, (write a).Legible) :
    (array (items.map write)).Legible :=
  .array fun d hd => by
    obtain ⟨a, ha, rfl⟩ := List.mem_map.mp hd
    exact h a ha

theorem legible_strings (items : List String) : (strings items).Legible :=
  legible_array_map fun s _ => .string s

theorem legible_nullable {write : α → Document} {o : Option α} (h : ∀ a ∈ o, (write a).Legible) :
    (nullable write o).Legible := by
  cases o with
  | none => exact .null
  | some a => exact h a rfl

/-- The members of an object whose values are legible. -/
theorem legible_optional (name : String) (write : α → Document) {o : Option α}
    (h : ∀ a ∈ o, (write a).Legible) : ∀ m ∈ optional name write o, m.2.Legible := by
  cases o with
  | none => exact fun m hm => nomatch hm
  | some a => exact fun m hm => List.mem_singleton.mp hm ▸ h a rfl

end Document

/-- Legible documents with one text are one document. -/
theorem Document.Legible.compact_inj {d d' : Document} (h : d.Legible) (h' : d'.Legible)
    (htext : d.compact = d'.compact) : d = d' := by
  have hparse := parse_compact h
  rw [htext, parse_compact h'] at hparse
  exact (Option.some.inj hparse).symm

end PageProbe.Json
