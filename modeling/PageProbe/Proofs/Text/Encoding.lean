import PageProbe.Text.Bytes

/-!
What a text is encoded to is read back as that text. A character has one of four forms, and its leading
byte tells which; the byte behind the leading one is where overlong forms and surrogates would show.
-/

namespace PageProbe.Text

theorem encode_append (s t : String) : encode (s ++ t) = encode s ++ encode t := by
  rw [encode, String.toList_append, List.flatMap_append]
  rfl

theorem leadBits_one (b : UInt8) : leadBits b 1 = b.toNat % 32 := rfl

theorem leadBits_two (b : UInt8) : leadBits b 2 = b.toNat % 16 := rfl

theorem leadBits_three (b : UInt8) : leadBits b 3 = b.toNat % 8 := rfl

theorem isTail_ofNat (n : Nat) : isTail (UInt8.ofNat (n % 64 + 0x80)) = true := by
  simp only [isTail, Bool.and_eq_true, decide_eq_true_eq, UInt8.le_iff_toNat_le, UInt8.toNat_ofNat',
    UInt8.reduceToNat]
  omega

theorem readTail_succ {ok : UInt8 → Bool} {b : UInt8} (hok : ok b = true) (n acc : Nat) (bs : Bytes) :
    readTail (n + 1) ok acc (b :: bs) = readTail n isTail (acc * 64 + b.toNat % 64) bs := by
  rw [readTail, if_pos hok]

theorem readChar_of_tailAfter {b : UInt8} {n : Nat} {ok : UInt8 → Bool}
    (htail : tailAfter b = some (n, ok)) (hb : 0x80 ≤ b.toNat) (bs : Bytes) :
    readChar b bs = readTail n ok (leadBits b n) bs := by
  have hlead : ¬ b < 0x80 := by
    simp only [UInt8.lt_iff_toNat_lt, UInt8.reduceToNat]
    omega
  rw [readChar, if_neg hlead, htail]

theorem readChar_one {v : Nat} (hhigh : v ≤ 0x7F) (bs : Bytes) :
    readChar (UInt8.ofNat v) bs = (some (Char.ofNat v), bs) := by
  have hsmall : (UInt8.ofNat v).toNat = v := by
    rw [UInt8.toNat_ofNat']
    omega
  have hlead : UInt8.ofNat v < 0x80 := by
    simp only [UInt8.lt_iff_toNat_lt, hsmall, UInt8.reduceToNat]
    omega
  rw [readChar, if_pos hlead, hsmall]

theorem readChar_two {v : Nat} (hlow : 0x7F < v) (hhigh : v ≤ 0x7FF) (bs : Bytes) :
    readChar (UInt8.ofNat (v / 64 % 32 + 0xC0)) (UInt8.ofNat (v % 64 + 0x80) :: bs) =
      (some (Char.ofNat v), bs) := by
  have htail : tailAfter (UInt8.ofNat (v / 64 % 32 + 0xC0)) = some (1, isTail) := by
    rw [tailAfter, if_pos]
    simp only [UInt8.le_iff_toNat_le, UInt8.toNat_ofNat', UInt8.reduceToNat]
    omega
  rw [readChar_of_tailAfter htail (by rw [UInt8.toNat_ofNat']; omega),
    readTail_succ (isTail_ofNat v), readTail]
  congr 3
  simp only [leadBits_one, UInt8.toNat_ofNat']
  omega

/-- The byte behind the leading one fits it: a code point of three bytes is not too small for them, and
    it is no surrogate. -/
theorem tailAfter_three {v : Nat} (hlow : 0x7FF < v) (hhigh : v ≤ 0xFFFF)
    (hvalid : v < 0xD800 ∨ 0xDFFF < v) :
    ∃ ok, tailAfter (UInt8.ofNat (v / 4096 % 16 + 0xE0)) = some (2, ok) ∧
      ok (UInt8.ofNat (v / 64 % 64 + 0x80)) = true := by
  simp only [tailAfter, UInt8.le_iff_toNat_le, ← UInt8.toNat_inj, UInt8.toNat_ofNat',
    UInt8.reduceToNat]
  rw [if_neg (by omega)]
  split
  · refine ⟨_, rfl, ?_⟩
    simp only [Bool.and_eq_true, decide_eq_true_eq, UInt8.toNat_ofNat']
    omega
  split
  · refine ⟨_, rfl, ?_⟩
    simp only [Bool.and_eq_true, decide_eq_true_eq, UInt8.toNat_ofNat']
    omega
  rw [if_pos (by omega)]
  exact ⟨isTail, rfl, isTail_ofNat _⟩

theorem readChar_three {v : Nat} (hlow : 0x7FF < v) (hhigh : v ≤ 0xFFFF)
    (hvalid : v < 0xD800 ∨ 0xDFFF < v) (bs : Bytes) :
    readChar (UInt8.ofNat (v / 4096 % 16 + 0xE0))
        (UInt8.ofNat (v / 64 % 64 + 0x80) :: UInt8.ofNat (v % 64 + 0x80) :: bs) =
      (some (Char.ofNat v), bs) := by
  obtain ⟨ok, htail, hok⟩ := tailAfter_three hlow hhigh hvalid
  rw [readChar_of_tailAfter htail (by rw [UInt8.toNat_ofNat']; omega), readTail_succ hok,
    readTail_succ (isTail_ofNat v), readTail]
  congr 3
  simp only [leadBits_two, UInt8.toNat_ofNat']
  omega

/-- As for three bytes: the code point is neither too small for four bytes nor too large for any. -/
theorem tailAfter_four {v : Nat} (hlow : 0xFFFF < v) (hhigh : v < 0x110000) :
    ∃ ok, tailAfter (UInt8.ofNat (v / 262144 % 8 + 0xF0)) = some (3, ok) ∧
      ok (UInt8.ofNat (v / 4096 % 64 + 0x80)) = true := by
  simp only [tailAfter, UInt8.le_iff_toNat_le, ← UInt8.toNat_inj, UInt8.toNat_ofNat',
    UInt8.reduceToNat]
  rw [if_neg (by omega), if_neg (by omega), if_neg (by omega), if_neg (by omega)]
  split
  · refine ⟨_, rfl, ?_⟩
    simp only [Bool.and_eq_true, decide_eq_true_eq, UInt8.toNat_ofNat']
    omega
  split
  · refine ⟨_, rfl, ?_⟩
    simp only [Bool.and_eq_true, decide_eq_true_eq, UInt8.toNat_ofNat']
    omega
  rw [if_pos (by omega)]
  exact ⟨isTail, rfl, isTail_ofNat _⟩

theorem readChar_four {v : Nat} (hlow : 0xFFFF < v) (hhigh : v < 0x110000) (bs : Bytes) :
    readChar (UInt8.ofNat (v / 262144 % 8 + 0xF0))
        (UInt8.ofNat (v / 4096 % 64 + 0x80) :: UInt8.ofNat (v / 64 % 64 + 0x80) ::
          UInt8.ofNat (v % 64 + 0x80) :: bs) =
      (some (Char.ofNat v), bs) := by
  obtain ⟨ok, htail, hok⟩ := tailAfter_four hlow hhigh
  rw [readChar_of_tailAfter htail (by rw [UInt8.toNat_ofNat']; omega), readTail_succ hok,
    readTail_succ (isTail_ofNat _), readTail_succ (isTail_ofNat v), readTail]
  congr 3
  simp only [leadBits_three, UInt8.toNat_ofNat']
  omega

/-- The bytes of a character are read back as that character, whatever comes behind them. -/
theorem readChars_utf8EncodeChar_append (c : Char) (bs : Bytes) :
    readChars (String.utf8EncodeChar c ++ bs) = some c :: readChars bs := by
  have hofNat : Char.ofNat c.val.toNat = c := Char.ofNat_toNat c
  have hvalid : c.val.toNat < 0xD800 ∨ 0xDFFF < c.val.toNat ∧ c.val.toNat < 0x110000 := c.valid
  suffices h : ∃ b rest, String.utf8EncodeChar c ++ bs = b :: rest ∧ readChar b rest = (some c, bs) by
    obtain ⟨b, rest, hbytes, hread⟩ := h
    rw [hbytes, readChars, hread]
  simp only [String.utf8EncodeChar]
  generalize c.val.toNat = v at hofNat hvalid
  subst hofNat
  split
  · exact ⟨_, _, rfl, readChar_one (by omega) bs⟩
  split
  · exact ⟨_, _, rfl, readChar_two (by omega) (by omega) bs⟩
  split
  · exact ⟨_, _, rfl, readChar_three (by omega) (by omega) (by omega) bs⟩
  · exact ⟨_, _, rfl, readChar_four (by omega) (by omega) bs⟩

theorem readChars_flatMap_utf8EncodeChar (cs : List Char) :
    readChars (cs.flatMap String.utf8EncodeChar) = cs.map some := by
  induction cs with
  | nil =>
    rw [List.flatMap_nil, readChars]
    rfl
  | cons c cs ih =>
    rw [List.flatMap_cons, readChars_utf8EncodeChar_append, ih]
    rfl

/-- The bytes of a text spell that text. -/
theorem decodeLossy_encode (s : String) : decodeLossy (encode s) = s := by
  rw [decodeLossy, encode, readChars_flatMap_utf8EncodeChar, List.map_map]
  exact (congrArg String.ofList (List.map_id s.toList)).trans String.ofList_toList

theorem decode?_encode (s : String) : decode? (encode s) = some s := by
  have hchars (cs : List Char) : (cs.map some).mapM id = some cs := by
    induction cs with
    | nil => rfl
    | cons c cs ih => rw [List.map_cons, List.mapM_cons, ih]; rfl
  rw [decode?, encode, readChars_flatMap_utf8EncodeChar, hchars, Option.map_some, String.ofList_toList]

/-- Every byte of a character that takes more than one has its high bit set. -/
theorem le_of_mem_utf8EncodeChar {c : Char} (hlong : 0x7F < c.val.toNat) :
    ∀ b ∈ String.utf8EncodeChar c, 0x80 ≤ b.toNat := by
  simp only [String.utf8EncodeChar, if_neg (Nat.not_le.mpr hlong)]
  repeat' split
  all_goals
    simp only [List.forall_mem_cons, UInt8.toNat_ofNat', List.not_mem_nil, false_imp_iff, implies_true,
      and_true]
    omega

/-- A byte below `0x80` is a character of its own, wherever it stands. -/
theorem utf8EncodeChar_of_mem {c : Char} {b : UInt8} (hmem : b ∈ String.utf8EncodeChar c)
    (hlow : b.toNat < 0x80) : c.val.toNat = b.toNat ∧ String.utf8EncodeChar c = [b] := by
  by_cases hlong : 0x7F < c.val.toNat
  · have hhigh := le_of_mem_utf8EncodeChar hlong b hmem
    omega
  · have hone : String.utf8EncodeChar c = [UInt8.ofNat c.val.toNat] := if_pos (Nat.not_lt.mp hlong)
    rw [hone, List.mem_singleton] at hmem
    rw [hone, hmem, UInt8.toNat_ofNat']
    exact ⟨by omega, rfl⟩

/-- A place between two characters of a text, or at one of its ends. -/
def Boundary (cs : List Char) (place : Nat) : Prop :=
  ∃ before after, cs = before ++ after ∧ width before = place

theorem length_flatMap_utf8EncodeChar (cs : List Char) :
    (cs.flatMap String.utf8EncodeChar).length = width cs := by
  induction cs with
  | nil => rfl
  | cons c rest ih => rw [List.flatMap_cons, List.length_append, String.length_utf8EncodeChar, ih, width_cons]

theorem Boundary.le_length {source : String} {place : Nat} (h : Boundary source.toList place) :
    place ≤ (encode source).length := by
  obtain ⟨before, after, hsource, rfl⟩ := h
  rw [encode, length_flatMap_utf8EncodeChar, hsource, width_append]
  omega

/-- A place behind the first character lies behind all of its bytes. -/
theorem Boundary.of_cons {c : Char} {cs : List Char} {place : Nat} (h : Boundary (c :: cs) place)
    (hplace : place ≠ 0) : c.utf8Size ≤ place ∧ Boundary cs (place - c.utf8Size) := by
  obtain ⟨before, after, hcs, rfl⟩ := h
  cases before with
  | nil => exact absurd rfl hplace
  | cons d before =>
    obtain ⟨rfl, rfl⟩ := List.cons.inj hcs
    refine ⟨by rw [width_cons]; omega, before, after, rfl, ?_⟩
    rw [width_cons]
    omega

end PageProbe.Text
