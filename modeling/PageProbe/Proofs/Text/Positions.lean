import Mathlib.Data.List.DropRight
import PageProbe.Proofs.Text.Encoding
import PageProbe.Text.Lines

/-!
The lines of a text start where its bytes say, and yet no line starts inside of a character: the byte of
a line feed is a character of its own. So a line and a column, counted in characters, name a place between
two characters, and the line and the column of a place name that place.
-/

namespace PageProbe.Text

theorem dropBytes?_cons (n : Nat) (c : Char) (cs : List Char) :
    dropBytes? (c.utf8Size + n) (c :: cs) = dropBytes? n cs := by
  obtain ⟨size, hsize⟩ := Nat.exists_eq_add_one_of_ne_zero c.utf8Size_pos.ne'
  rw [hsize, Nat.add_right_comm, dropBytes?, hsize, if_pos (by omega), Nat.add_right_comm, Nat.add_sub_cancel_left]

theorem takeBytes?_cons (n : Nat) (c : Char) (cs : List Char) :
    takeBytes? (c.utf8Size + n) (c :: cs) = (takeBytes? n cs).map (c :: ·) := by
  obtain ⟨size, hsize⟩ := Nat.exists_eq_add_one_of_ne_zero c.utf8Size_pos.ne'
  rw [hsize, Nat.add_right_comm, takeBytes?, hsize, if_pos (by omega), Nat.add_right_comm, Nat.add_sub_cancel_left]

theorem dropBytes?_append (xs ys : List Char) : dropBytes? (width xs) (xs ++ ys) = some ys := by
  induction xs with
  | nil => cases ys <;> rfl
  | cons c xs ih => rw [width_cons, List.cons_append, dropBytes?_cons, ih]

theorem takeBytes?_append (xs ys : List Char) : takeBytes? (width xs) (xs ++ ys) = some xs := by
  induction xs with
  | nil => cases ys <;> rfl
  | cons c xs ih => rw [width_cons, List.cons_append, takeBytes?_cons, ih, Option.map_some]

theorem slice_append (front text back : List Char) :
    slice (front ++ text ++ back) ⟨width front, width (front ++ text)⟩ = text := by
  have hlength : (⟨width front, width (front ++ text)⟩ : Span).length = width text := by
    rw [width_append]
    exact Nat.add_sub_cancel_left ..
  rw [slice, if_pos (by rw [width_append]; exact Nat.le_add_right ..), List.append_assoc, dropBytes?_append,
    Option.bind_some, hlength, takeBytes?_append, Option.getD_some]

theorem width_le_of_prefix {xs ys : List Char} (h : xs <+: ys) : width xs ≤ width ys := by
  obtain ⟨rest, rfl⟩ := h
  rw [width_append]
  exact Nat.le_add_right ..

theorem behindLineFeeds_append (place : Nat) (xs ys : Bytes) :
    behindLineFeeds place (xs ++ ys) = behindLineFeeds place xs ++ behindLineFeeds (place + xs.length) ys := by
  rw [behindLineFeeds, List.zipIdx_append, List.filter_append, List.map_append, Nat.add_right_comm]
  rfl

theorem behindLineFeeds_of_notMem {bs : Bytes} (h : 0x0A ∉ bs) (place : Nat) : behindLineFeeds place bs = [] := by
  rw [behindLineFeeds, List.map_eq_nil_iff, List.filter_eq_nil_iff]
  rintro ⟨b, i⟩ hb hfeed
  exact h (eq_of_beq hfeed ▸ List.fst_mem_of_mem_zipIdx hb)

/-- No byte of another character can be taken for a line feed. -/
theorem lineFeed_mem_utf8EncodeChar {c : Char} : 0x0A ∈ String.utf8EncodeChar c ↔ c = '\n' := by
  refine ⟨fun h => ?_, fun h => h ▸ List.mem_singleton.mpr rfl⟩
  exact Char.ext (UInt32.toNat_inj.mp (utf8EncodeChar_of_mem h (by decide)).1)

theorem length_behindLineFeeds (place : Nat) (cs : List Char) :
    (behindLineFeeds place (cs.flatMap String.utf8EncodeChar)).length = cs.count '\n' := by
  induction cs generalizing place with
  | nil => rfl
  | cons c cs ih =>
    rw [List.flatMap_cons, behindLineFeeds_append, List.length_append, ih]
    by_cases hc : c = '\n'
    · subst hc
      rw [List.count_cons_self, Nat.add_comm]
      rfl
    · rw [behindLineFeeds_of_notMem (mt lineFeed_mem_utf8EncodeChar.mp hc), List.count_cons_of_ne hc]
      exact Nat.zero_add _

theorem lineStarts_append (xs ys : List Char) :
    lineStarts (xs ++ ys) = lineStarts xs ++ behindLineFeeds (width xs) (ys.flatMap String.utf8EncodeChar) := by
  rw [lineStarts, List.flatMap_append, behindLineFeeds_append, length_flatMap_utf8EncodeChar, Nat.zero_add]
  rfl

theorem lineStarts_concat (cs : List Char) : lineStarts (cs ++ ['\n']) = lineStarts cs ++ [width (cs ++ ['\n'])] := by
  rw [lineStarts_append, width_append]
  rfl

theorem lineCount_eq (cs : List Char) : lineCount cs = cs.count '\n' + 1 :=
  congrArg (· + 1) (length_behindLineFeeds 0 cs)

/-- A line begins behind `front`: that is empty, or its last character is a line feed. -/
def BeginsLine (front : List Char) : Prop := front = [] ∨ ∃ rest, front = rest ++ ['\n']

/-- A line with what stands before and behind it in a text. It goes on up to its first line feed, which
    belongs to it, or up to the end of the text. The last line of a text may be empty. -/
structure Line where
  before : List Char
  text : List Char
  after : List Char
  begins : BeginsLine before
  ends : (∃ inner, text = inner ++ ['\n'] ∧ '\n' ∉ inner) ∨ '\n' ∉ text ∧ after = []

namespace Line

def source (l : Line) : List Char := l.before ++ l.text ++ l.after

/-- Lines are counted from one. -/
def number (l : Line) : Nat := l.before.count '\n' + 1

def start (l : Line) : Nat := width l.before

def stop (l : Line) : Nat := width (l.before ++ l.text)

end Line

/-- The number of characters of a text behind its last line feed. -/
def column (cs : List Char) : Nat := (cs.rtakeWhile (· != '\n')).length

theorem BeginsLine.getElem?_lineStarts {front : List Char} (h : BeginsLine front) (back : List Char) :
    (lineStarts (front ++ back))[front.count '\n']? = some (width front) := by
  rcases h with rfl | ⟨rest, rfl⟩
  · rfl
  · have hcount : (rest ++ ['\n']).count '\n' = (lineStarts rest).length := by
      rw [List.count_append]
      exact (lineCount_eq rest).symm
    rw [lineStarts_append, lineStarts_concat, hcount, List.getElem?_append_left (by simp),
      List.getElem?_concat_length]

theorem beginsLine_rdropWhile (cs : List Char) : BeginsLine (cs.rdropWhile (· != '\n')) := by
  by_cases hne : cs.rdropWhile (· != '\n') = []
  · exact .inl hne
  · have hlast := List.rdropWhile_last_not (· != '\n') cs hne
    rw [bne_iff_ne, not_not] at hlast
    have hconcat := List.dropLast_concat_getLast hne
    rw [hlast] at hconcat
    exact .inr ⟨_, hconcat.symm⟩

theorem lineFeed_notMem_rtakeWhile (cs : List Char) : '\n' ∉ cs.rtakeWhile (· != '\n') := by
  intro hmem
  have hne := List.mem_rtakeWhile_imp (p := (· != '\n')) hmem
  exact bne_iff_ne.mp hne rfl

/-- Any number of the line feeds of a text can stand before a place. -/
theorem exists_place {cs : List Char} {n : Nat} (hn : n ≤ cs.count '\n') :
    ∃ front back, cs = front ++ back ∧ front.count '\n' = n := by
  induction cs generalizing n with
  | nil => exact ⟨[], [], rfl, (Nat.le_zero.mp hn).symm⟩
  | cons c cs ih =>
    by_cases hc : c = '\n'
    · subst hc
      rw [List.count_cons_self] at hn
      cases n with
      | zero => exact ⟨[], _, rfl, rfl⟩
      | succ n =>
        obtain ⟨front, back, rfl, rfl⟩ := ih (Nat.le_of_succ_le_succ hn)
        exact ⟨'\n' :: front, back, rfl, List.count_cons_self⟩
    · rw [List.count_cons_of_ne hc] at hn
      obtain ⟨front, back, rfl, rfl⟩ := ih hn
      exact ⟨c :: front, back, rfl, List.count_cons_of_ne hc⟩

namespace Line

theorem getElem?_start (l : Line) : (lineStarts l.source)[l.before.count '\n']? = some l.start := by
  rw [source, List.append_assoc]
  exact l.begins.getElem?_lineStarts _

/-- Where a line ends the next one starts, if there is one. -/
theorem getElem?_stop (l : Line) : (lineStarts l.source)[l.number]?.getD (width l.source) = l.stop := by
  rcases l.ends with ⟨inner, htext, hinner⟩ | ⟨hfree, hafter⟩
  · have hcount : (l.before ++ l.text).count '\n' = l.number := by
      rw [htext, List.count_append, List.count_append, List.count_eq_zero.mpr hinner]
      rfl
    have hbegins : BeginsLine (l.before ++ l.text) := .inr ⟨l.before ++ inner, by rw [htext, List.append_assoc]⟩
    rw [source, ← hcount, hbegins.getElem?_lineStarts, Option.getD_some, stop]
  · have hlast : (lineStarts (l.before ++ l.text)).length = l.number := by
      rw [← lineCount, lineCount_eq, List.count_append, List.count_eq_zero.mpr hfree]
      rfl
    rw [source, hafter, List.append_nil, List.getElem?_eq_none hlast.le, Option.getD_none, stop]

/-- A column stands behind that many characters of its line, or at the end of the line. -/
theorem offset?_eq (l : Line) (column : Nat) :
    offset? l.source l.number column = some (width (l.before ++ l.text.take column)) := by
  have hslice : slice l.source ⟨l.start, l.stop⟩ = l.text := slice_append ..
  have hstop := l.getElem?_stop
  rw [number] at hstop
  simp only [number, offset?, l.getElem?_start, Option.bind_eq_bind, Option.bind_some, hstop, hslice,
    width_append]
  rfl

/-- Every place of a text is on one of its lines. -/
theorem exists_around (front back : List Char) :
    ∃ (l : Line) (rest : List Char), l.source = front ++ back ∧ l.number = front.count '\n' + 1 ∧
      l.before = front.rdropWhile (· != '\n') ∧ l.text = front.rtakeWhile (· != '\n') ++ rest := by
  have hfront : front.rdropWhile (· != '\n') ++ front.rtakeWhile (· != '\n') = front :=
    List.rdropWhile_append_rtakeWhile
  have hfree := lineFeed_notMem_rtakeWhile front
  have hnumber : (front.rdropWhile (· != '\n')).count '\n' + 1 = front.count '\n' + 1 := by
    conv => rhs; rw [← hfront]
    rw [List.count_append, List.count_eq_zero.mpr hfree, Nat.add_zero]
  -- Behind the place the line goes on up to the next line feed, if there is one.
  by_cases hmem : '\n' ∈ back
  · obtain ⟨inner, after, rfl, hinner⟩ := List.eq_append_cons_of_mem hmem
    refine ⟨⟨_, front.rtakeWhile (· != '\n') ++ (inner ++ ['\n']), after, beginsLine_rdropWhile front,
      .inl ⟨_, (List.append_assoc ..).symm, ?_⟩⟩, inner ++ ['\n'], ?_, hnumber, rfl, rfl⟩
    · exact fun h => (List.mem_append.mp h).elim hfree hinner
    · rw [source, ← List.append_assoc, hfront, List.append_assoc, List.append_assoc]
      rfl
  · refine ⟨⟨_, front.rtakeWhile (· != '\n') ++ back, [], beginsLine_rdropWhile front,
      .inr ⟨fun h => (List.mem_append.mp h).elim hfree hmem, rfl⟩⟩, back, ?_, hnumber, rfl, rfl⟩
    rw [source, List.append_nil, ← List.append_assoc, hfront]

theorem number_le (l : Line) : l.number ≤ lineCount l.source := by
  rw [lineCount_eq, source, List.append_assoc, List.count_append]
  exact Nat.succ_le_succ (Nat.le_add_right ..)

theorem exists_number {cs : List Char} {line : Nat} (hpos : 0 < line) (hle : line ≤ lineCount cs) :
    ∃ l : Line, l.source = cs ∧ l.number = line := by
  rw [lineCount_eq] at hle
  obtain ⟨front, back, rfl, hcount⟩ := exists_place (Nat.sub_le_of_le_add hle)
  obtain ⟨l, -, hsource, hnumber, -⟩ := exists_around front back
  exact ⟨l, hsource, by omega⟩

/-- Nothing of a line stands before the end of an earlier line of the same text. -/
theorem stop_le_start {l l' : Line} (hsource : l.source = l'.source) (h : l.number < l'.number) :
    l.stop ≤ l'.start := by
  have hhead : l.before ++ l.text <+: l.source := List.prefix_append ..
  have hhead' : l'.before <+: l.source := by
    rw [hsource, source, List.append_assoc]
    exact List.prefix_append ..
  rcases List.prefix_or_prefix_of_prefix hhead hhead' with hprefix | hprefix
  · exact width_le_of_prefix hprefix
  -- A line that begins before the end of another one has no more line feeds before it than that.
  rw [number, number] at h
  rcases l.ends with ⟨inner, htext, hinner⟩ | ⟨hfree, -⟩
  · rw [htext, ← List.append_assoc] at hprefix
    rcases List.prefix_concat_iff.mp hprefix with heq | hprefix
    · rw [start, stop, heq, htext, List.append_assoc]
    · have hcount := hprefix.sublist.count_le '\n'
      rw [List.count_append, List.count_eq_zero.mpr hinner] at hcount
      omega
  · have hcount := hprefix.sublist.count_le '\n'
    rw [List.count_append, List.count_eq_zero.mpr hfree] at hcount
    omega

end Line

theorem offset?_eq_none_iff {cs : List Char} {line column : Nat} :
    offset? cs line column = none ↔ line = 0 ∨ lineCount cs < line := by
  by_cases hline : 0 < line ∧ line ≤ lineCount cs
  · obtain ⟨l, rfl, rfl⟩ := Line.exists_number hline.1 hline.2
    rw [l.offset?_eq]
    exact iff_of_false (Option.some_ne_none _) (by omega)
  · refine iff_of_true ?_ (by omega)
    cases line with
    | zero => rfl
    | succ k =>
      rw [offset?, List.getElem?_eq_none (by rw [← lineCount]; omega)]
      rfl

/-- A column counts the characters of the line that are before a place. -/
theorem offset?_place (front back : List Char) :
    offset? (front ++ back) (front.count '\n' + 1) (column front) = some (width front) := by
  obtain ⟨l, rest, hsource, hnumber, hbefore, htext⟩ := Line.exists_around front back
  rw [← hsource, ← hnumber, l.offset?_eq, htext, hbefore, column, List.take_left, List.rdropWhile_append_rtakeWhile]

theorem exists_line_of_offset? {cs : List Char} {line column offset : Nat} (h : offset? cs line column = some offset) :
    ∃ l : Line, l.source = cs ∧ l.number = line ∧ offset = width (l.before ++ l.text.take column) := by
  have hline : ¬ (line = 0 ∨ lineCount cs < line) := fun hnone => by
    rw [offset?_eq_none_iff.mpr hnone] at h
    cases h
  obtain ⟨l, rfl, rfl⟩ : ∃ l : Line, l.source = cs ∧ l.number = line :=
    Line.exists_number (by omega) (by omega)
  rw [l.offset?_eq, Option.some_inj] at h
  exact ⟨l, rfl, rfl, h.symm⟩

namespace Line

theorem take_le_stop (l : Line) (column : Nat) : width (l.before ++ l.text.take column) ≤ l.stop :=
  width_le_of_prefix ((List.prefix_append_right_inj _).mpr (List.take_prefix ..))

/-- What is found on a line stands between two of its characters, or at one of its ends. -/
theorem offset?_bounds (l : Line) (column : Nat) :
    ∃ offset, offset? l.source l.number column = some offset ∧ Boundary l.source offset ∧
      l.start ≤ offset ∧ offset ≤ l.stop ∧ (l.text.length ≤ column → offset = l.stop) := by
  refine ⟨_, l.offset?_eq column, ⟨_, l.text.drop column ++ l.after, ?_, rfl⟩, ?_, l.take_le_stop column,
    fun hpast => ?_⟩
  · rw [List.append_assoc, ← List.append_assoc (l.text.take column), List.take_append_drop, ← List.append_assoc]
    rfl
  · exact width_le_of_prefix (List.prefix_append ..)
  · rw [List.take_of_length_le hpast, stop]

end Line

theorem offset?_mono {cs : List Char} {line column offset line' column' offset' : Nat}
    (h : offset? cs line column = some offset) (h' : offset? cs line' column' = some offset')
    (hle : line < line' ∨ line = line' ∧ column ≤ column') : offset ≤ offset' := by
  obtain ⟨l, rfl, rfl, rfl⟩ := exists_line_of_offset? h
  rcases hle with hlt | ⟨rfl, hcolumn⟩
  · obtain ⟨l', hsource, rfl, rfl⟩ := exists_line_of_offset? h'
    calc width (l.before ++ l.text.take column)
        ≤ l.stop := l.take_le_stop column
      _ ≤ l'.start := Line.stop_le_start hsource.symm hlt
      _ ≤ width (l'.before ++ l'.text.take column') := width_le_of_prefix (List.prefix_append ..)
  · rw [l.offset?_eq, Option.some_inj] at h'
    rw [← h']
    exact width_le_of_prefix ((List.prefix_append_right_inj _).mpr (List.take_prefix_take_left hcolumn))

/-- There is one more line than there are line feeds, and a line and a column are found exactly when there
    is that line. The line and the column of a place find that place. Every column of a line finds a place
    between two characters that is not before the line and not behind it, and a column past the line finds
    its end. What is later in the order of lines and columns is not found earlier. Nothing is assumed of the
    text: it may begin with a byte order mark, have empty lines and end without a line feed. -/
theorem offset?_positions (cs : List Char) :
    lineCount cs = cs.count '\n' + 1 ∧
    (∀ line column, offset? cs line column = none ↔ line = 0 ∨ lineCount cs < line) ∧
    (∀ front back, cs = front ++ back →
      offset? cs (front.count '\n' + 1) (column front) = some (width front)) ∧
    (∀ line, (∃ l : Line, l.source = cs ∧ l.number = line) ↔ 0 < line ∧ line ≤ lineCount cs) ∧
    (∀ l : Line, l.source = cs → ∀ column, ∃ offset, offset? cs l.number column = some offset ∧
      Boundary cs offset ∧ l.start ≤ offset ∧ offset ≤ l.stop ∧
      (l.text.length ≤ column → offset = l.stop)) ∧
    ∀ line column offset line' column' offset', offset? cs line column = some offset →
      offset? cs line' column' = some offset' → line < line' ∨ line = line' ∧ column ≤ column' →
      offset ≤ offset' := by
  refine ⟨lineCount_eq cs, fun _ _ => offset?_eq_none_iff, ?_, fun line => ⟨?_, ?_⟩, ?_, ?_⟩
  · rintro front back rfl
    exact offset?_place front back
  · rintro ⟨l, rfl, rfl⟩
    exact ⟨Nat.succ_pos _, l.number_le⟩
  · exact fun ⟨hpos, hle⟩ => Line.exists_number hpos hle
  · rintro l rfl column
    exact l.offset?_bounds column
  · exact fun _ _ _ _ _ _ h h' hle => offset?_mono h h' hle

/-- A text with a byte order mark, an empty line, longer characters and no line feed at its end. -/
def markedText : List Char := ['\uFEFF', 'a', '\n', '\n', 'é', '😀']

/-- The mark counts as a character of the first line, and the line feed as one of the line that it ends. -/
theorem offset?_positions_marked :
    lineCount markedText = 3 ∧ offset? markedText 1 1 = some 3 ∧ offset? markedText 2 0 = some 5 ∧
      offset? markedText 2 1 = some 6 ∧ offset? markedText 3 1 = some 8 ∧ 6 ≤ 8 ∧
      offset? markedText 3 7 = some 12 ∧ offset? markedText 0 1 = none ∧ offset? markedText 4 0 = none := by
  obtain ⟨hcount, hnone, hplace, -, hline, hmono⟩ := offset?_positions markedText
  let second : Line := ⟨['\uFEFF', 'a', '\n'], ['\n'], ['é', '😀'], .inr ⟨['\uFEFF', 'a'], rfl⟩,
    .inl ⟨[], rfl, List.not_mem_nil⟩⟩
  let last : Line := ⟨['\uFEFF', 'a', '\n', '\n'], ['é', '😀'], [], .inr ⟨['\uFEFF', 'a', '\n'], rfl⟩,
    .inr ⟨by decide, rfl⟩⟩
  obtain ⟨offset, hsecond, -, -, -, hstop⟩ := hline second rfl 1
  rw [hstop (Nat.le_refl 1)] at hsecond
  obtain ⟨offset, hlast, -, -, -, hstop⟩ := hline last rfl 7
  rw [hstop (by simp [last])] at hlast
  have hplaced := hplace ['\uFEFF', 'a', '\n', '\n', 'é'] _ rfl
  exact ⟨hcount, hplace ['\uFEFF'] _ rfl, hplace ['\uFEFF', 'a', '\n'] _ rfl, hsecond, hplaced,
    hmono _ _ _ _ _ _ hsecond hplaced (.inl (by decide)), hlast, (hnone 0 1).mpr (.inl rfl),
    (hnone 4 0).mpr (.inr (by decide))⟩

end PageProbe.Text
