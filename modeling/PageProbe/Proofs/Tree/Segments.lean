import PageProbe.Tree.Path

namespace PageProbe

namespace Text

theorem split_append {stop : Char → Bool} {c : Char} (hc : stop c = true) (before after : List Char) :
    split stop (before ++ c :: after) = split stop before ++ split stop after := by
  induction before with
  | nil => simp [split, hc]
  | cons d rest ih =>
    rw [List.cons_append, split, split, ih]
    cases hd : stop d with
    | true => rfl
    | false =>
      cases hrest : split stop rest with
      | nil => exact absurd hrest (split_ne_nil stop rest)
      | cons piece pieces => rfl

/-- A text without separators is its only piece. -/
theorem split_of_forall {stop : Char → Bool} {cs : List Char} (h : ∀ c ∈ cs, stop c = false) :
    split stop cs = [cs] := by
  induction cs with
  | nil => rfl
  | cons c rest ih =>
    rw [split, h c List.mem_cons_self, ih fun d hd => h d (List.mem_cons_of_mem c hd)]
    rfl

theorem split_cons_of_false {p : Char → Bool} {c : Char} (hc : p c = false) (cs : List Char) :
    ∃ piece pieces, split p (c :: cs) = (c :: piece) :: pieces := by
  rw [split, hc]
  cases split p cs with
  | nil => exact ⟨[], [], rfl⟩
  | cons piece pieces => exact ⟨piece, pieces, rfl⟩

theorem split_cons_of_true {p : Char → Bool} {c : Char} (hc : p c = true) (cs : List Char) :
    split p (c :: cs) = [] :: split p cs := by
  rw [split, if_pos hc]

/-- No piece has a separator in it. -/
theorem stop_of_mem_split {stop : Char → Bool} {cs piece : List Char} (h : piece ∈ split stop cs) :
    ∀ c ∈ piece, stop c = false := by
  induction cs generalizing piece with
  | nil =>
    rw [split, List.mem_singleton] at h
    rw [h]
    exact fun c hc => absurd hc List.not_mem_nil
  | cons d rest ih =>
    cases hd : stop d with
    | true =>
      rw [split_cons_of_true hd] at h
      rcases List.mem_cons.mp h with rfl | h
      · exact fun c hc => absurd hc List.not_mem_nil
      · exact ih h
    | false =>
      rw [split, hd] at h
      cases hrest : split stop rest with
      | nil => exact absurd hrest (split_ne_nil stop rest)
      | cons first more =>
        rw [hrest] at h ih
        rcases List.mem_cons.mp h with rfl | h
        · exact List.forall_mem_cons.mpr ⟨hd, ih List.mem_cons_self⟩
        · exact ih (List.mem_cons_of_mem first h)

theorem intercalate_split (c : Char) (cs : List Char) : List.intercalate [c] (split (· == c) cs) = cs := by
  induction cs with
  | nil => rfl
  | cons d rest ih =>
    rw [split]
    cases hrest : split (· == c) rest with
    | nil => exact absurd hrest (split_ne_nil _ rest)
    | cons piece pieces =>
      rw [hrest] at ih
      by_cases hd : d = c
      · simp [hd, ih]
      · cases pieces with
        | nil => simpa [hd, hrest] using ih
        | cons next more => simpa [hd, hrest] using ih

end Text

namespace Path

theorem segments_child (path name : String) : segments (child path name) = segments path ++ segments name := by
  have htext : (child path name).toList = path.toList ++ '/' :: name.toList := by simp [child]
  rw [segments, split, htext, Text.split_append rfl, List.map_append, segments, segments, split, split]

theorem segments_of_plain {name : String} (h : '/' ∉ name.toList) : segments name = [name] := by
  have hpieces : split name.toList = [name.toList] := Text.split_of_forall fun c hc => by
    rw [beq_eq_false_iff_ne]
    rintro rfl
    exact h hc
  rw [segments, hpieces, List.map_singleton, String.ofList_toList]

theorem join_segments (path : String) : join (segments path) = path := by
  have hpieces : ((split path.toList).map String.ofList).map String.toList = split path.toList := by
    simp [Function.comp_def]
  rw [← String.toList_inj, join, String.toList_intercalate, segments, hpieces]
  exact Text.intercalate_split '/' path.toList

theorem plain_of_mem_segments {path segment : String} (h : segment ∈ segments path) :
    '/' ∉ segment.toList := by
  obtain ⟨piece, hpiece, rfl⟩ := List.mem_map.mp h
  intro hslash
  rw [String.toList_ofList] at hslash
  simpa using Text.stop_of_mem_split hpiece '/' hslash

theorem segments_join {names : List String} (hnames : names ≠ []) (hplain : ∀ n ∈ names, '/' ∉ n.toList) :
    segments (join names) = names := by
  induction names with
  | nil => exact absurd rfl hnames
  | cons n rest ih =>
    have hn := segments_of_plain (hplain n List.mem_cons_self)
    cases rest with
    | nil => exact hn
    | cons m rest =>
      have hjoin : join (n :: m :: rest) = child n (join (m :: rest)) := String.intercalate_cons_cons
      rw [hjoin, segments_child, hn,
        ih (List.cons_ne_nil m rest) fun l hl => hplain l (List.mem_cons_of_mem n hl)]
      rfl

theorem segments_ofScript {file : String} (h : '/' ∉ file.toList) : segments (ofScript file) = ["", file] := by
  have hpath : ofScript file = child "" file := by simp [ofScript, child]
  rw [hpath, segments_child, segments_of_plain h, segments_of_plain (by decide)]
  rfl

/-- The script of a path is its first segment behind the leading slash. -/
theorem first_of_segments {path file : String} {more : List String} (hfile : file ≠ "")
    (h : segments path = "" :: file :: more) : first path = file := by
  rw [segments, split] at h
  cases hpath : path.toList with
  | nil =>
    rw [hpath] at h
    cases h
  | cons c cs =>
    rw [hpath] at h
    cases hc : c == '/' with
    | false =>
      obtain ⟨piece, pieces, hsplit⟩ := Text.split_cons_of_false (p := (· == '/')) hc cs
      rw [hsplit, List.map_cons] at h
      simp at h
    | true =>
      rw [Text.split_cons_of_true (p := (· == '/')) hc, List.map_cons] at h
      obtain ⟨-, h⟩ := List.cons.inj h
      -- Behind the slash the script starts with something that is no slash.
      have hstart : (c :: cs).dropWhile (· == '/') = cs := by
        rw [List.dropWhile_cons, if_pos hc]
        cases cs with
        | nil => rfl
        | cons d ds =>
          cases hd : d == '/' with
          | false => rw [List.dropWhile_cons, if_neg (by simp [hd])]
          | true =>
            rw [Text.split_cons_of_true (p := (· == '/')) hd, List.map_cons] at h
            exact absurd (List.cons.inj h).1.symm hfile
      rw [first, hpath, hstart, split]
      cases hsplit : Text.split (· == '/') cs with
      | nil => exact absurd hsplit (Text.split_ne_nil _ cs)
      | cons piece pieces =>
        rw [hsplit, List.map_cons] at h
        exact (List.cons.inj h).1

end Path
end PageProbe
