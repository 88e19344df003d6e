import PageProbe.Proofs.Text.Encoding
import PageProbe.Script.Token.Reader

namespace PageProbe.Script

attribute [grind ext] Cursor

/-- What is left of a text at a cursor stands behind as many bytes as the cursor tells. -/
def Cursor.On (cs : List Char) (c : Cursor) : Prop :=
  ∃ before, cs = before ++ c.rest ∧ Text.width before = c.offset

namespace Cursor.On

variable {cs : List Char} {c : Cursor}

theorem boundary (h : c.On cs) : Text.Boundary cs c.offset := by
  obtain ⟨before, hcs, hwidth⟩ := h
  exact ⟨before, c.rest, hcs, hwidth⟩

theorem start (cs : List Char) : Cursor.On cs ⟨0, cs⟩ := ⟨[], rfl, rfl⟩

/-- Behind some of what is left, a cursor stands as many bytes further. -/
theorem behind (h : c.On cs) (taken : List Char) {rest : List Char} (hrest : c.rest = taken ++ rest) :
    Cursor.On cs ⟨c.offset + Text.width taken, rest⟩ := by
  obtain ⟨before, hcs, hwidth⟩ := h
  exact ⟨before ++ taken, by rw [hcs, hrest, List.append_assoc], by rw [Text.width_append, hwidth]⟩

@[grind ←] theorem next (h : c.On cs) : c.next.On cs := by
  rw [Cursor.next]
  split
  · exact h
  · next x xs hrest => exact h.behind [x] hrest

@[grind ←] theorem advance (h : c.On cs) (n : Nat) : (Cursor.advance n c).On cs := by
  induction n generalizing c with
  | zero => exact h
  | succ n ih => exact ih h.next

@[grind ←] theorem takeWhile (h : c.On cs) (p : Char → Bool) : (c.takeWhile p).2.On cs :=
  h.behind (c.rest.takeWhile p) List.takeWhile_append_dropWhile.symm

@[grind ←] theorem skipLine (h : c.On cs) : c.skipLine.On cs := h.takeWhile _

theorem skipBlock (line : Bool) {offset : Nat} {rest : List Char} (h : Cursor.On cs ⟨offset, rest⟩) :
    (Script.skipBlock line offset rest).2.On cs := by
  fun_induction Script.skipBlock line offset rest with
  | case1 => exact h
  | case2 line offset rest => exact h.behind ['*', '/'] rfl
  | case3 line offset x rest _ ih => exact ih (h.behind [x] rfl)

theorem skipWith (h : c.On cs) (fuel : Nat) (line : Bool) : (Script.skipWith fuel line c).2.On cs := by
  fun_induction Script.skipWith fuel line c with
  | case3 fuel line c rest hrest inside c' hblock ih =>
    have hopen : Cursor.On cs ⟨c.offset + 2, rest⟩ := h.behind ['/', '*'] hrest
    have hclosed := hopen.skipBlock false
    rw [hblock] at hclosed
    exact ih hclosed
  | _ => grind

@[grind ←] theorem skipBlanks (h : c.On cs) (line : Bool) : (c.skipBlanks line).2.On cs :=
  h.skipWith _ line

theorem skipMarksWith (h : c.On cs) (fuel : Nat) (line : Bool) :
    (Script.skipMarksWith fuel line c).2.On cs := by
  fun_induction Script.skipMarksWith fuel line c with
  | _ => grind

@[grind ←] theorem skipMarks (h : c.On cs) (line : Bool) : (c.skipMarks line).2.On cs :=
  h.skipMarksWith _ line

theorem fixedHex (h : c.On cs) {n acc : Nat} {read : Nat × Cursor}
    (hread : Script.fixedHex n acc c = some read) : read.2.On cs := by
  induction n generalizing c acc with
  | zero =>
    cases hread
    exact h
  | succ n ih =>
    obtain ⟨d, -, hread⟩ := Option.bind_eq_some_iff.mp hread
    exact ih h.next hread

theorem bracedHex (h : c.On cs) {read : Nat × Cursor} (hread : Script.bracedHex c = some read) :
    read.2.On cs := by
  grind [Script.bracedHex]

theorem unicodeEscape? (h : c.On cs) {read : Nat × Cursor}
    (hread : Script.unicodeEscape? c = some read) : read.2.On cs := by
  rw [Script.unicodeEscape?] at hread
  split at hread
  · exact h.next.bracedHex hread
  · exact h.fixedHex hread

theorem octalEscape (h : c.On cs) (first : Nat) : (Script.octalEscape first c).2.On cs := by
  grind [Script.octalEscape]

theorem escape? (h : c.On cs) {octals : Bool} {read : List Nat × Cursor}
    (hread : Script.escape? octals c = some read) : read.2.On cs := by
  rw [Script.escape?] at hread
  split at hread
  case h_13 =>
    obtain ⟨hex, hhex, rfl⟩ := Option.map_eq_some_iff.mp hread
    exact h.next.fixedHex hhex
  case h_14 =>
    obtain ⟨code, hcode, rfl⟩ := Option.map_eq_some_iff.mp hread
    exact h.next.unicodeEscape? hcode
  case h_15 =>
    have hoctal (d : Nat) := h.next.octalEscape d
    grind
  all_goals grind

/-- The text behind a cursor that stood at an escape or at a plain character. -/
theorem quotedCodes (h : c.On cs) {quote : Char} {fuel : Nat} {codes : List Nat} {c' : Cursor}
    (hread : Script.quotedCodes quote fuel c = some (codes, c')) : c'.On cs := by
  induction fuel generalizing c codes c' with
  | zero => cases hread
  | succ fuel ih =>
    rw [Script.quotedCodes] at hread
    split at hread
    · cases hread
    · obtain ⟨⟨first, c₁⟩, hescape, hread⟩ := Option.bind_eq_some_iff.mp hread
      obtain ⟨⟨more, c₂⟩, hmore, hread⟩ := Option.bind_eq_some_iff.mp hread
      cases hread
      exact ih (h.next.escape? hescape) hmore
    · split at hread
      · cases hread
        exact h.next
      split at hread
      · cases hread
      · obtain ⟨⟨more, c₁⟩, hmore, hread⟩ := Option.bind_eq_some_iff.mp hread
        cases hread
        exact ih h.next hmore

@[grind ←] theorem readQuoted (h : c.On cs) (quote : Char) : (Script.readQuoted quote c).2.On cs := by
  rw [Script.readQuoted]
  split
  · next hcodes => exact h.quotedCodes hcodes
  · exact h

theorem chunkWith (h : c.On cs) {tagged : Bool} {fuel : Nat} {read : ChunkEnd × Cursor}
    (hread : Script.chunkWith tagged fuel c = some read) : read.2.On cs := by
  induction fuel generalizing c with
  | zero => cases hread
  | succ fuel ih =>
    rw [Script.chunkWith] at hread
    split at hread
    · cases hread
    · cases hread
      exact h.next
    · cases hread
      exact h.next.next
    · split at hread
      · next hescape => exact ih (h.next.escape? hescape) hread
      · split at hread
        · exact ih h.next.next hread
        · cases hread
    · exact ih h.next hread

@[grind →] theorem readChunk (h : c.On cs) {tagged : Bool} {read : ChunkEnd × Cursor}
    (hread : Script.readChunk tagged c = some read) : read.2.On cs := h.chunkWith hread

theorem regexBody (h : c.On cs) {fuel : Nat} {inClass : Bool} {read : Cursor}
    (hread : Script.regexBody fuel inClass c = some read) : read.On cs := by
  fun_induction Script.regexBody fuel inClass c with
  | _ => grind

@[grind →] theorem readRegex (h : c.On cs) {read : Cursor} (hread : Script.readRegex c = some read) :
    read.On cs := by
  obtain ⟨body, hbody, rfl⟩ := Option.map_eq_some_iff.mp hread
  exact (h.regexBody hbody).takeWhile _

@[grind ←] theorem digits (h : c.On cs) (radix : Nat) : (Script.digits radix c).2.On cs :=
  h.takeWhile _

@[grind ←] theorem closed (h : c.On cs) (t : Token) : (Script.closed t c).2.On cs := by
  grind [Script.closed]

@[grind ←] theorem withRadix (h : c.On cs) (radix : Nat) : (Script.withRadix radix c).2.On cs := by
  grind [Script.withRadix]

theorem exponent? (h : c.On cs) {read : Option Int × Cursor} (hread : Script.exponent? c = some read) :
    read.2.On cs := by
  grind [Script.exponent?]

@[grind ←] theorem decimalFrom (h : c.On cs) (whole : List Nat) (mayBeBig : Bool) :
    (Script.decimalFrom whole mayBeBig c).2.On cs := by
  have hfraction : (if c.rest.head? == some '.' then Script.digits 10 c.next else ([], c)).2.On cs := by
    split
    · exact h.next.digits 10
    · exact h
  rw [Script.decimalFrom]
  split
  · exact h.next.closed _
  generalize (if c.rest.head? == some '.' then Script.digits 10 c.next else ([], c)) = read at hfraction
  cases hexponent : Script.exponent? read.2 with
  | none => simpa only [hexponent] using hfraction
  | some found => simpa only [hexponent] using (hfraction.exponent? hexponent).closed _

@[grind ←] theorem readNumber (h : c.On cs) : (Script.readNumber c).2.On cs := by
  grind [Script.readNumber]

theorem nameChars (h : c.On cs) {fuel : Nat} {name : List Char} {escaped : Bool} {c' : Cursor}
    (hread : Script.nameChars fuel c = some (name, escaped, c')) : c'.On cs := by
  induction fuel generalizing c name escaped c' with
  | zero =>
    cases hread
    exact h
  | succ fuel ih =>
    rw [Script.nameChars] at hread
    split at hread
    · obtain ⟨⟨n, c₁⟩, hescape, hread⟩ := Option.bind_eq_some_iff.mp hread
      obtain ⟨⟨more, _, c₂⟩, hmore, hread⟩ := Option.bind_eq_some_iff.mp hread
      cases hread
      exact ih (h.next.next.unicodeEscape? hescape) hmore
    · cases hread
    · split at hread
      · obtain ⟨⟨more, _, c₁⟩, hmore, hread⟩ := Option.bind_eq_some_iff.mp hread
        cases hread
        exact ih h.next hmore
      · cases hread
        exact h
    · cases hread
      exact h

@[grind ←] theorem readName (h : c.On cs) (make : String → Bool → Token) :
    (Script.readName make c).2.On cs := by
  rw [Script.readName]
  split
  · next hchars => exact h.nameChars hchars
  · exact h

@[grind ←] theorem readMark (h : c.On cs) : (Script.readMark c).2.On cs := by
  grind [Script.readMark]

@[grind ←] theorem readToken (h : c.On cs) : (Script.readToken c).2.On cs := by
  grind [Script.readToken]

end Cursor.On

end PageProbe.Script
