import Mathlib.Data.List.Basic
import PageProbe.Command.Line
import PageProbe.Proofs.Injection.Callees

namespace PageProbe

namespace Text

theorem trim_sublist (s : String) : (trim s).toList.Sublist s.toList := by
  rw [trim, String.toList_ofList, trimEnd, trimStart]
  have hend := (List.dropWhile_sublist isBlank (l := (s.toList.dropWhile isBlank).reverse)).reverse
  rw [List.reverse_reverse] at hend
  exact hend.trans (List.dropWhile_sublist isBlank)

theorem trim_length_le (s : String) : (trim s).length ≤ s.length := by
  rw [← String.length_toList, ← String.length_toList]
  exact (trim_sublist s).length_le

/-- A text that is as long as before has lost nothing. -/
theorem trim_eq_of_length {s : String} (h : (trim s).length = s.length) : trim s = s := by
  rw [← String.length_toList, ← String.length_toList] at h
  exact String.toList_inj.mp ((trim_sublist s).eq_of_length h)

theorem trim_blank (s : String) : trim (" " ++ s) = trim s := by
  have hblank : (" " ++ s).toList = ' ' :: s.toList := by simp
  rw [trim, trim, hblank, trimStart, List.dropWhile_cons_of_pos (by decide), trimStart]

end Text

namespace Command

/-- What stands between the commas of a text. -/
def pieces (text : String) : List String := (Text.split (· == ',') text.toList).map String.ofList

/-- What is left of pieces as arguments. -/
def kept (args : List String) : List String := (args.map Text.trim).filter (!·.isEmpty)

/-- A text without blanks at its ends or beside its commas, and with something between all of them. -/
def Close (text : String) : Prop := ∀ piece ∈ pieces text, piece ≠ "" ∧ Text.trim piece = piece

instance (text : String) : Decidable (Close text) :=
  inferInstanceAs (Decidable (∀ piece ∈ pieces text, piece ≠ "" ∧ Text.trim piece = piece))

theorem splitArguments_eq_kept (text : String) : splitArguments text = kept (pieces text) := by
  rw [splitArguments, kept, pieces, List.map_map]
  rfl

theorem pieces_ne_nil (text : String) : pieces text ≠ [] := by
  simp [pieces]

theorem intercalate_pieces (text : String) : ",".intercalate (pieces text) = text := by
  have hpieces : (pieces text).map String.toList = Text.split (· == ',') text.toList := by
    simp [pieces, Function.comp_def]
  rw [← String.toList_inj, String.toList_intercalate, hpieces]
  exact Text.intercalate_split ',' text.toList

theorem pieces_append (front back : String) : pieces (front ++ "," ++ back) = pieces front ++ pieces back := by
  have htext : (front ++ "," ++ back).toList = front.toList ++ ',' :: back.toList := by simp
  rw [pieces, htext, Text.split_append (by decide), List.map_append, pieces, pieces]

theorem kept_append (args more : List String) : kept (args ++ more) = kept args ++ kept more := by
  rw [kept, List.map_append, List.filter_append, kept, kept]

theorem splitArguments_append (front back : String) :
    splitArguments (front ++ "," ++ back) = splitArguments front ++ splitArguments back := by
  simp only [splitArguments_eq_kept, pieces_append, kept_append]

/-- A blank in front of a text is one beside its first piece. -/
theorem splitArguments_blank (text : String) : splitArguments (" " ++ text) = splitArguments text := by
  have htext : (" " ++ text).toList = ' ' :: text.toList := by simp
  rw [splitArguments_eq_kept, splitArguments_eq_kept, pieces, pieces, htext]
  cases hsplit : Text.split (· == ',') text.toList with
  | nil => exact absurd hsplit (Text.split_ne_nil _ _)
  | cons piece rest =>
    have hblank : Text.split (· == ',') (' ' :: text.toList) = (' ' :: piece) :: rest := by
      rw [Text.split, hsplit]
      rfl
    have hpiece : String.ofList (' ' :: piece) = " " ++ String.ofList piece := by
      rw [← String.toList_inj]
      simp
    rw [hblank, kept, kept, List.map_cons, List.map_cons, List.map_cons, List.map_cons, hpiece,
      Text.trim_blank]

/-- Texts that are put together are taken apart one by one. -/
theorem splitArguments_intercalate (texts : List String) :
    splitArguments (", ".intercalate texts) = texts.flatMap splitArguments := by
  induction texts with
  | nil => rfl
  | cons text rest ih =>
    rw [List.flatMap_cons, ← ih]
    cases rest with
    | nil => rw [String.intercalate_singleton, String.intercalate_nil]; exact (List.append_nil _).symm
    | cons next rest =>
      have hcut : ", ".intercalate (text :: next :: rest) =
          text ++ "," ++ (" " ++ ", ".intercalate (next :: rest)) := by
        rw [← String.toList_inj]
        simp
      rw [hcut, splitArguments_append, splitArguments_blank]

theorem flatMap_splitArguments (texts : List String) :
    texts.flatMap splitArguments = kept (texts.flatMap pieces) := by
  induction texts with
  | nil => rfl
  | cons text rest ih => rw [List.flatMap_cons, List.flatMap_cons, kept_append, ih, splitArguments_eq_kept]

/-- It is all the same whether texts stand between commas or all their pieces. -/
theorem intercalate_flatMap_pieces (texts : List String) :
    ",".intercalate (texts.flatMap pieces) = ",".intercalate texts := by
  induction texts with
  | nil => rfl
  | cons text rest ih =>
    cases rest with
    | nil => simpa using intercalate_pieces text
    | cons next rest =>
      have hmore : (next :: rest).flatMap pieces ≠ [] := by simp [pieces_ne_nil]
      rw [List.flatMap_cons, String.intercalate_append_of_ne_nil (pieces_ne_nil text) hmore, ih,
        intercalate_pieces, String.intercalate_cons_cons]

/-- The room that arguments take, each with a comma. -/
def room (args : List String) : Nat := (args.map (·.length + 1)).sum

theorem room_cons (arg : String) (args : List String) : room (arg :: args) = arg.length + 1 + room args := by
  rw [room, List.map_cons, List.sum_cons, room]

/-- The last argument has no comma. -/
theorem length_intercalate {args : List String} (h : args ≠ []) :
    (",".intercalate args).length + 1 = room args := by
  induction args with
  | nil => exact absurd rfl h
  | cons arg rest ih =>
    rw [room_cons]
    cases rest with
    | nil => simp [room]
    | cons next rest =>
      rw [← ih (List.cons_ne_nil _ _), String.intercalate_cons_cons, String.length_append,
        String.length_append]
      change arg.length + 1 + _ + 1 = _
      omega

/-- A piece that is left out or trimmed makes room. -/
theorem room_kept (args : List String) :
    room (kept args) ≤ room args ∧
      (room (kept args) = room args → ∀ arg ∈ args, arg ≠ "" ∧ Text.trim arg = arg) := by
  induction args with
  | nil => exact ⟨Nat.le_refl _, fun _ => nofun⟩
  | cons arg rest ih =>
    obtain ⟨hle, heq⟩ := ih
    have htrim := Text.trim_length_le arg
    rw [room_cons]
    by_cases hnothing : Text.trim arg = ""
    · have hkept : kept (arg :: rest) = kept rest := by simp [kept, hnothing]
      rw [hkept]
      exact ⟨by omega, fun hsame => absurd hsame (by omega)⟩
    · have hkept : kept (arg :: rest) = Text.trim arg :: kept rest := by simp [kept, hnothing]
      rw [hkept, room_cons]
      refine ⟨by omega, fun hsame => ?_⟩
      have hwhole : Text.trim arg = arg := Text.trim_eq_of_length (by omega)
      exact List.forall_mem_cons.mpr ⟨⟨hwhole ▸ hnothing, hwhole⟩, heq (by omega)⟩

theorem kept_of_whole {args : List String} (h : ∀ arg ∈ args, arg ≠ "" ∧ Text.trim arg = arg) :
    kept args = args := by
  have hsame : args.map Text.trim = args := (List.map_congr_left fun arg harg => (h arg harg).2).trans args.map_id
  rw [kept, hsame]
  exact List.filter_eq_self.mpr fun arg harg => by simpa using (h arg harg).1

/-- Pieces stand between commas as before just when none of them is left out or trimmed. -/
theorem intercalate_kept_iff {args : List String} (hargs : args ≠ [""]) :
    ",".intercalate (kept args) = ",".intercalate args ↔ ∀ arg ∈ args, arg ≠ "" ∧ Text.trim arg = arg := by
  refine ⟨fun hsame => ?_, fun h => by rw [kept_of_whole h]⟩
  by_cases hnil : args = []
  · subst hnil
    nofun
  have hlength := length_intercalate hnil
  by_cases hkept : kept args = []
  · -- Nothing is left, so that there was nothing but one empty piece.
    rw [← hsame, hkept] at hlength
    obtain ⟨arg, rest, rfl⟩ := List.exists_cons_of_ne_nil hnil
    rw [room_cons] at hlength
    cases rest with
    | nil =>
      have hempty : arg.length = 0 := by simpa [room] using hlength.symm
      exact absurd (congrArg ([·]) (String.length_eq_zero_iff.mp hempty)) hargs
    | cons next rest =>
      rw [room_cons, String.intercalate_nil, String.length_empty] at hlength
      omega
  · refine (room_kept args).2 ?_
    rw [← length_intercalate hkept, hsame, hlength]

theorem intercalate_splitArguments_iff {texts : List String} (htexts : ∀ text ∈ texts, text ≠ "") :
    ",".intercalate (texts.flatMap splitArguments) = ",".intercalate texts ↔ ∀ text ∈ texts, Close text := by
  have hpieces : texts.flatMap pieces ≠ [""] := by
    intro hempty
    have hjoined := intercalate_flatMap_pieces texts
    rw [hempty, String.intercalate_singleton] at hjoined
    cases texts with
    | nil => cases hempty
    | cons text rest =>
      cases rest with
      | nil => exact htexts text List.mem_cons_self (by simpa using hjoined.symm)
      | cons next rest =>
        rw [String.intercalate_cons_cons] at hjoined
        have hlength := congrArg String.length hjoined
        rw [String.length_append, String.length_append] at hlength
        have hcomma : ",".length = 1 := rfl
        rw [String.length_empty, hcomma] at hlength
        omega
  rw [flatMap_splitArguments, ← intercalate_flatMap_pieces texts, intercalate_kept_iff hpieces]
  simp only [List.mem_flatMap, Close]
  exact ⟨fun h text ht piece hp => h piece ⟨text, ht, hp⟩, fun h piece ⟨text, ht, hp⟩ => h text ht piece hp⟩

/-- A text without commas is one piece. -/
theorem close_of_plain {text : String} (hcomma : ',' ∉ text.toList) (hnonempty : text ≠ "")
    (htrim : Text.trim text = text) : Close text := by
  have hpieces : pieces text = [text] := by
    rw [pieces, Text.split_of_forall fun c hc => ?_, List.map_singleton, String.ofList_toList]
    rw [beq_eq_false_iff_ne]
    rintro rfl
    exact hcomma hc
  intro piece hpiece
  rw [hpieces, List.mem_singleton] at hpiece
  exact hpiece ▸ ⟨hnonempty, htrim⟩

/-- The characters of a text that count for something wherever they stand. -/
def solid (text : String) : List Char := text.toList.filter fun c => c != ',' && !Text.isBlank c

theorem solid_append (front back : String) : solid (front ++ back) = solid front ++ solid back := by
  rw [solid, String.toList_append, List.filter_append, solid, solid]

theorem solid_trim (text : String) : solid (Text.trim text) = solid text := by
  have hstart (cs : List Char) : (cs.dropWhile Text.isBlank).filter (fun c => c != ',' && !Text.isBlank c) =
      cs.filter fun c => c != ',' && !Text.isBlank c := by
    induction cs with
    | nil => rfl
    | cons c cs ih =>
      by_cases hc : Text.isBlank c = true
      · rw [List.dropWhile_cons_of_pos hc, ih, List.filter_cons_of_neg (by simp [hc])]
      · rw [List.dropWhile_cons_of_neg hc]
  rw [solid, Text.trim, String.toList_ofList, Text.trimEnd, List.filter_reverse, hstart, List.filter_reverse,
    List.reverse_reverse, Text.trimStart, hstart, solid]

theorem solid_intercalate (args : List String) : solid (",".intercalate args) = args.flatMap solid := by
  induction args with
  | nil => rfl
  | cons arg rest ih =>
    rw [List.flatMap_cons, ← ih]
    cases rest with
    | nil => rw [String.intercalate_singleton, String.intercalate_nil]; exact (List.append_nil _).symm
    | cons next rest =>
      have hcomma : solid "," = [] := rfl
      rw [String.intercalate_cons_cons, solid_append, solid_append, hcomma, List.append_nil]

theorem solid_kept (args : List String) : (kept args).flatMap solid = args.flatMap solid := by
  induction args with
  | nil => rfl
  | cons arg rest ih =>
    rw [List.flatMap_cons, ← ih, ← solid_trim arg]
    by_cases hnothing : Text.trim arg = ""
    · have hkept : kept (arg :: rest) = kept rest := by simp [kept, hnothing]
      rw [hkept, hnothing]
      rfl
    · have hkept : kept (arg :: rest) = Text.trim arg :: kept rest := by simp [kept, hnothing]
      rw [hkept, List.flatMap_cons]

/-- Nothing but blanks and commas is lost, and all else keeps its order. -/
theorem solid_splitArguments (texts : List String) :
    solid (",".intercalate (texts.flatMap splitArguments)) = solid (",".intercalate texts) := by
  rw [flatMap_splitArguments, solid_intercalate, solid_kept, ← solid_intercalate,
    intercalate_flatMap_pieces]

end Command

theorem callStatement_inj (name : String) (args args' : List String) :
    callStatement name args = callStatement name args' ↔ ",".intercalate args = ",".intercalate args' := by
  constructor
  · intro h
    have h := congrArg String.toList h
    simp only [callStatement, String.toList_append, List.append_assoc, List.append_cancel_left_eq,
      List.append_cancel_right_eq] at h
    exact String.toList_inj.mp h
  · intro h
    rw [callStatement, h, callStatement]

namespace Injector

open Command

/-- The texts of the arguments of a function around the target, passed as one value with a comma and a blank
    between any two, come through to the call that is spliced for it as all their pieces, without the blanks
    around these and without empty ones. They stand there as they were written just when that leaves all
    texts with commas of their own as they were; texts without commas always come through. What is lost of
    the others are blanks and commas only. Nothing is assumed of the tree, of the other values, or of the
    texts but what their writer sees to: none is empty or has blanks around it. -/
theorem select_written {before i : Injector} {tree : FunctionTree} {path : String} {values : List String}
    (hok : before.select tree path (values.map splitArguments) = .ok i) :
    ∃ target leaf, i.target = some target ∧ tree.find? path = some leaf ∧
      ∀ (n : Nat) (d : Leaf) (texts : List String), (tree.dependencies leaf)[n]? = some d →
        values[n]? = some (", ".intercalate texts) →
        (∀ t, (target.insertions t)[n + 1]? =
          some ⟨d.injectionPoint, callStatement d.name (texts.flatMap splitArguments)⟩) ∧
        Command.solid (",".intercalate (texts.flatMap splitArguments)) =
          Command.solid (",".intercalate texts) ∧
        ((∀ text ∈ texts, text ≠ "" ∧ Text.trim text = text) →
          (callStatement d.name (texts.flatMap splitArguments) = callStatement d.name texts ↔
            ∀ text ∈ texts, ',' ∈ text.toList → Close text)) := by
  obtain ⟨leaf, target, hfind, rfl, hharness, -, hpoint, hdependencies⟩ := select_eq_ok hok
  obtain ⟨-, hmade⟩ := Harness.ofLeaf_eq_ok hharness
  refine ⟨target, leaf, rfl, hfind, fun n d texts hd hvalue => ⟨fun t => ?_, solid_splitArguments texts,
    fun htexts => ?_⟩⟩
  · rw [InjectionTarget.insertions_eq_insertionsFor hpoint hdependencies,
      Leaf.insertionsFor_eq (by rw [hmade]), List.getElem?_cons_succ, List.getElem?_map,
      List.getElem?_zipIdx, hd]
    simp [hvalue, splitArguments_intercalate]
  · rw [callStatement_inj, intercalate_splitArguments_iff fun text ht => (htexts text ht).1]
    refine forall₂_congr fun text ht => ⟨fun hclose _ => hclose, fun h => ?_⟩
    by_cases hcomma : ',' ∈ text.toList
    · exact h hcomma
    · exact close_of_plain hcomma (htexts text ht).1 (htexts text ht).2

/-- A text with a comma and a blank inside of quotes is another text in the call. -/
theorem select_written_quoted :
    ∃ i target, empty.select Sample.tree "/a.js/outer/inner" ([", ".intercalate ["'a, b'"]].map splitArguments) =
        .ok i ∧ i.target = some target ∧
      (target.insertions ⟨"u", none⟩)[1]? = some ⟨4, "\nouter('a,b');\n"⟩ ∧
      callStatement "outer" ["'a, b'"] = "\nouter('a, b');\n" ∧
      "\nouter('a,b');\n" ≠ "\nouter('a, b');\n" :=
  ⟨_, _, rfl, rfl, rfl, rfl, by decide⟩

theorem select_written_nested :
    ∃ i target, empty.select Sample.tree "/a.js/outer/inner"
        ([", ".intercalate ["f(1,2)", "'x y'"]].map splitArguments) = .ok i ∧ i.target = some target ∧
      (target.insertions ⟨"u", none⟩)[1]? = some ⟨4, "\nouter(f(1,2),'x y');\n"⟩ := by
  have hok : ∃ i, empty.select Sample.tree "/a.js/outer/inner"
      ([", ".intercalate ["f(1,2)", "'x y'"]].map splitArguments) = .ok i := ⟨_, rfl⟩
  obtain ⟨i, hok⟩ := hok
  obtain ⟨target, leaf, htarget, hfind, hwritten⟩ := select_written hok
  obtain rfl : Sample.inner = leaf := Option.some.inj hfind
  obtain ⟨hspliced, -, hsame⟩ := hwritten 0 Sample.outer ["f(1,2)", "'x y'"] rfl rfl
  have hcall := (hsame (by decide)).mpr (by decide)
  exact ⟨i, target, hok, htarget, (hspliced _).trans (by rw [hcall]; rfl)⟩

end Injector
end PageProbe
