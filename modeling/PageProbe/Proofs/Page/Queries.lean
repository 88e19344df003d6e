import Mathlib.Data.Bool.AllAny
import Mathlib.Data.List.Infix
import PageProbe.Proofs.Page.Sources

/-!
A query is cut off a value in the end, but only after the value has been looked for and asked for its host as a
whole. So a query decides in two ways what comes of a local path: it may seem to name a host, and it may end like
the lead of a source, which is then the last one of the tag.
-/

namespace PageProbe.Html

open Text (isBlank isLetter)

/-- A document around the value of the source of its only script. -/
structure SoleScript where
  before : List Char
  name : List Char
  /-- What stands between the name of the tag and the source. -/
  attributes : List Char
  lead : List Char
  quote : Char
  /-- All that follows the source, the rest of the tag included. -/
  after : List Char
  before_free : ScriptFree before
  name_spells : Spells ['s', 'c', 'r', 'i', 'p', 't'] name
  attributes_inside : '>' ∉ attributes
  lead_leads : Lead lead
  quote_isQuote : isQuote quote = true
  after_free : ScriptFree after
  after_sourceless : Sourceless after

namespace SoleScript

/-- What follows the name of the tag. -/
def tag (page : SoleScript) (value : List Char) : List Char :=
  page.attributes ++ (page.lead ++ page.quote :: (value ++ page.quote :: page.after))

def text (page : SoleScript) (value : String) : String :=
  String.ofList (page.before ++ '<' :: (page.name ++ page.tag value.toList))

/-- The value ends like the lead of a source, and its closing quote opens another value, which is `found`. -/
def Misread (page : SoleScript) (value found : List Char) : Prop :=
  (∃ front lead, value = front ++ lead ∧ '>' ∉ front ∧ Lead lead) ∧
    ∃ quote rest, isQuote quote = true ∧ found ≠ [] ∧ (∀ c ∈ found, isQuote c = false) ∧
      page.after = found ++ quote :: rest

/-- All leads behind the opening quote stand in the value. -/
theorem lead_in_value {page : SoleScript} {value front lead back : List Char} (hfront : '>' ∉ front)
    (hlead : Lead lead)
    (hcs : value ++ page.quote :: page.after = front ++ (lead ++ back)) : front ++ lead <+: value := by
  rw [← List.append_assoc] at hcs
  have hquote := page.quote_isQuote
  rcases List.append_eq_append_iff.mp hcs with ⟨more, hpart, hafter⟩ | ⟨more, hmore, -⟩
  · cases more with
    | nil => exact (hpart.trans (List.append_nil value)) ▸ List.prefix_rfl
    | cons c more =>
      rw [List.cons_append, List.cons.injEq] at hafter
      obtain ⟨rfl, hafter⟩ := hafter
      -- The lead has no quotes, so that it stands after the one that closes the value.
      have hlead' : page.quote ∉ lead := fun hmem => by simpa [hquote] using hlead.unquoted _ hmem
      obtain ⟨inner, rfl⟩ := suffix_of_append_cons ⟨front, hpart⟩ hlead'
      rw [← List.cons_append, ← List.append_assoc, List.append_cancel_right_eq] at hpart
      rw [List.append_assoc] at hafter
      refine absurd hlead (page.after_sourceless inner lead back hafter fun hend => hfront ?_)
      rw [hpart]
      exact List.mem_append_right value (List.mem_cons_of_mem _ hend)
  · exact ⟨more, hmore.symm⟩

theorem lastSource_after (page : SoleScript) : lastSource page.after = none := by
  refine Option.eq_none_iff_forall_ne_some.mpr fun found hfound => ?_
  obtain ⟨front, lead, back, hcs, hfront, hlead, -⟩ := lastSource_eq_some hfound
  exact page.after_sourceless front lead back hcs hfront hlead

/-- Behind the opening quote a source is found only where the value is misread. -/
theorem lastSource_value {page : SoleScript} {value found rest : List Char}
    (hvalue : ∀ c ∈ value, isQuote c = false)
    (h : lastSource (value ++ page.quote :: page.after) = some (found, rest)) : page.Misread value found := by
  obtain ⟨front, lead, back, hcs, hfront, hlead, hback⟩ := lastSource_eq_some h
  obtain ⟨q, q', hq, hq', hfound, hunquoted, rfl⟩ := quoted_eq_some.mp hback
  obtain ⟨more, rfl⟩ := lead_in_value hfront hlead hcs
  rw [← List.append_assoc, List.append_assoc (front ++ lead), List.append_cancel_left_eq] at hcs
  cases more with
  | nil =>
    rw [List.nil_append, List.cons.injEq] at hcs
    exact ⟨⟨front, lead, List.append_nil _, hfront, hlead⟩, q', rest, hq', hfound, hunquoted, hcs.2⟩
  | cons c more =>
    rw [List.cons_append, List.cons.injEq] at hcs
    have hc := hvalue c (List.mem_append_right _ List.mem_cons_self)
    rw [hcs.1, hq] at hc
    cases hc

theorem Misread.lastSource_value {page : SoleScript} {value found : List Char} (h : page.Misread value found) :
    ∃ rest, rest <:+ page.after ∧
      lastSource (value ++ page.quote :: page.after) = some (found, rest) := by
  obtain ⟨⟨front, lead, rfl, hfront, hlead⟩, q, rest, hq, hfound, hunquoted, hafter⟩ := h
  refine ⟨rest, ⟨found ++ [q], by rw [hafter]; simp⟩, ?_⟩
  rw [List.append_assoc]
  refine lastSource_append hfront ?_
  rw [lastSource_lead hlead page.quote_isQuote, page.lastSource_after, Option.none_or, quoted_eq_some]
  exact ⟨page.quote, q, page.quote_isQuote, hq, hfound, hunquoted, by rw [hafter]⟩

theorem lastSource_tag {page : SoleScript} {value : List Char} {found : List Char × List Char}
    (h : (lastSource (value ++ page.quote :: page.after)).or
      (quoted (page.quote :: (value ++ page.quote :: page.after))) = some found) :
    lastSource (page.tag value) = some found :=
  lastSource_append page.attributes_inside ((lastSource_lead page.lead_leads page.quote_isQuote _).trans h)

/-- What is found last in the tag is the only reference of the document. -/
theorem references_text {page : SoleScript} {value found rest : List Char} (hrest : rest <:+ page.after)
    (h : lastSource (page.tag value) = some (found, rest)) {cs : List Char}
    (hcs : cs = page.before ++ '<' :: (page.name ++ page.tag value)) : references cs.length cs = [found] := by
  have hafter : afterLetters ['s', 'c', 'r', 'i', 'p', 't'] (page.name ++ page.tag value) =
      some (page.tag value) := afterLetters_eq_some.mpr ⟨page.name, page.name_spells, rfl⟩
  rw [hcs, List.length_append, references_append page.before_free, List.length_cons]
  simp only [references]
  rw [if_pos (by decide), hafter, Option.bind_some, h]
  exact congrArg (found :: ·) (references_of_scriptFree (page.after_free.suffix hrest) _)

end SoleScript

/-- What a value gives: nothing when it names another host, and otherwise what stands before the query and the
    fragment. -/
def paths (value : List Char) : List String :=
  if isRemote value then [] else [String.ofList (Text.upTo (fun c => c == '?' || c == '#') value)]

theorem scriptSources_eq (html : String) :
    scriptSources html = (references html.toList.length html.toList).flatMap paths := by
  rw [scriptSources]
  generalize references html.toList.length html.toList = values
  induction values with
  | nil => rfl
  | cons value values ih =>
    rw [List.flatMap_cons, ← ih]
    by_cases hremote : isRemote value = true
    · rw [List.filter_cons_of_neg (by simp [hremote]), paths, if_pos hremote, List.nil_append]
    · rw [List.filter_cons_of_pos (by simp [hremote]), paths, if_neg hremote]
      rfl

theorem hasInside_iff {part cs : List Char} : hasInside part cs = true ↔ part <:+: cs := by
  induction cs with
  | nil => rw [hasInside, List.isEmpty_iff, List.infix_nil]
  | cons c cs ih => rw [hasInside, Bool.or_eq_true, List.isPrefixOf_iff_prefix, ih, List.infix_cons_iff]

theorem infix_append_cons {part front back : List Char} {c : Char} (hc : c ∉ part) :
    part <:+: front ++ c :: back ↔ part <:+: front ∨ part <:+: back := by
  constructor
  · intro h
    induction front with
    | nil =>
      rcases List.infix_cons_iff.mp h with h | h
      · exact .inl (prefix_of_append_cons (List.nil_append (c :: back) ▸ h) hc).isInfix
      · exact .inr h
    | cons d front ih =>
      rcases List.infix_cons_iff.mp h with h | h
      · have h : part <+: d :: front ++ c :: back := h
        exact .inl (prefix_of_append_cons h hc).isInfix
      · exact (ih h).imp_left fun h => List.infix_cons h
  · rintro (h | h)
    · exact h.trans (List.prefix_append front _).isInfix
    · exact h.trans ((List.suffix_cons c back).trans (List.suffix_append front _)).isInfix

theorem upTo_query {path : List Char} (hpath : ∀ c ∈ path, c ≠ '?' ∧ c ≠ '#') {mark : Char}
    (hmark : mark = '?' ∨ mark = '#') (query : List Char) :
    Text.upTo (fun c => c == '?' || c == '#') path = path ∧
      Text.upTo (fun c => c == '?' || c == '#') (path ++ mark :: query) = path := by
  have hplain : ∀ c ∈ path, (!(c == '?' || c == '#')) = true := fun c hc => by simpa using hpath c hc
  refine ⟨List.takeWhile_eq_self_iff.mpr hplain, ?_⟩
  rw [Text.upTo, List.takeWhile_append_of_pos hplain, List.takeWhile_cons_of_neg, List.append_nil]
  rcases hmark with rfl | rfl <;> decide

theorem isRemote_iff {value : List Char} :
    isRemote value = true ↔ [':', '/', '/'] <:+: value ∨ ['/', '/'] <+: value := by
  rw [isRemote, Bool.or_eq_true, hasInside_iff, List.isPrefixOf_iff_prefix]

/-- A path that names no host is the whole of what it gives. -/
theorem paths_local {path : List Char} (hpath : ∀ c ∈ path, c ≠ '?' ∧ c ≠ '#')
    (hscheme : ¬ [':', '/', '/'] <:+: path) (hhost : ¬ ['/', '/'] <+: path) :
    paths path = [String.ofList path] := by
  have hlocal : ¬ isRemote path = true := by simpa [isRemote_iff] using ⟨hscheme, hhost⟩
  rw [paths, if_neg hlocal, (upTo_query hpath (.inl rfl) []).1]

/-- A query is asked for a scheme with the path in front of it. -/
theorem paths_query {path : List Char} (hpath : ∀ c ∈ path, c ≠ '?' ∧ c ≠ '#')
    (hscheme : ¬ [':', '/', '/'] <:+: path) (hhost : ¬ ['/', '/'] <+: path) {mark : Char}
    (hmark : mark = '?' ∨ mark = '#') (query : List Char) :
    paths (path ++ mark :: query) = if [':', '/', '/'] <:+: query then [] else [String.ofList path] := by
  have hscheme' : mark ∉ [':', '/', '/'] := by rcases hmark with rfl | rfl <;> decide
  have hhost' : mark ∉ ['/', '/'] := by rcases hmark with rfl | rfl <;> decide
  have hremote : isRemote (path ++ mark :: query) = true ↔ [':', '/', '/'] <:+: query := by
    rw [isRemote_iff, infix_append_cons hscheme']
    exact ⟨fun h => (h.resolve_right fun h => hhost (prefix_of_append_cons h hhost')).resolve_left hscheme,
      fun h => .inl (.inr h)⟩
  rw [paths, (upTo_query hpath hmark query).2]
  exact if_congr hremote rfl rfl

namespace SoleScript

theorem scriptSources_text {page : SoleScript} {value : String} {found rest : List Char}
    (hrest : rest <:+ page.after) (h : lastSource (page.tag value.toList) = some (found, rest)) :
    scriptSources (page.text value) = paths found := by
  rw [scriptSources_eq, references_text hrest h (by rw [text, String.toList_ofList]), List.flatMap_singleton]

theorem scriptSources_misread {page : SoleScript} {value : String} {found : List Char}
    (h : page.Misread value.toList found) : scriptSources (page.text value) = paths found := by
  obtain ⟨rest, hrest, hlast⟩ := h.lastSource_value
  exact scriptSources_text hrest (lastSource_tag (by rw [hlast, Option.some_or]))

theorem scriptSources_value {page : SoleScript} {value : String} (hne : value ≠ "")
    (hvalue : ∀ c ∈ value.toList, isQuote c = false) (h : ∀ found, ¬ page.Misread value.toList found) :
    scriptSources (page.text value) = paths value.toList := by
  have hlast : lastSource (value.toList ++ page.quote :: page.after) = none :=
    Option.eq_none_iff_forall_ne_some.mpr fun found hfound => h found.1 (lastSource_value hvalue hfound)
  refine scriptSources_text List.suffix_rfl (lastSource_tag ?_)
  rw [hlast, Option.none_or, quoted_eq_some]
  exact ⟨page.quote, page.quote, page.quote_isQuote, page.quote_isQuote, by simpa using hne, hvalue, rfl⟩

/-- A value is misread for its query alone. -/
theorem misread_query {page : SoleScript} {path query found : List Char} {mark : Char} (hpath : '>' ∉ path)
    (hmark : mark = '?' ∨ mark = '#') :
    page.Misread (path ++ mark :: query) found ↔ page.Misread query found := by
  refine and_congr_left' ⟨?_, ?_⟩
  · rintro ⟨front, lead, hvalue, hfront, hlead⟩
    have hlead' : mark ∉ lead := by
      rcases hmark with rfl | rfl
      · exact hlead.notMem (by decide) (by decide) (by decide)
      · exact hlead.notMem (by decide) (by decide) (by decide)
    obtain ⟨inner, rfl⟩ := suffix_of_append_cons ⟨front, hvalue.symm⟩ hlead'
    rw [← List.cons_append, ← List.append_assoc, List.append_cancel_right_eq] at hvalue
    refine ⟨inner, lead, rfl, fun hend => hfront ?_, hlead⟩
    rw [← hvalue]
    exact List.mem_append_right path (List.mem_cons_of_mem _ hend)
  · rintro ⟨front, lead, rfl, hfront, hlead⟩
    refine ⟨path ++ mark :: front, lead, by simp, ?_, hlead⟩
    simp only [List.mem_append, List.mem_cons, not_or]
    exact ⟨hpath, by rcases hmark with rfl | rfl <;> decide, hfront⟩

/-- A value without blanks is read as it stands. -/
theorem Misread.exists_blank {page : SoleScript} {value found : List Char} (h : page.Misread value found) :
    ∃ c ∈ value, isBlank c = true := by
  obtain ⟨⟨front, lead, rfl, -, blank, name, gap, gap', rfl, hb, -⟩, -⟩ := h
  exact ⟨blank, List.mem_append_right front List.mem_cons_self, hb⟩

/-- What a local path gives by itself, and with a query or a fragment. By itself it is found as it stands,
    unless it is empty. With a query it is found just when the query holds no colon with two slashes, as if
    those named the host of the script. A text of either kind that ends like the beginning of a source is not
    read at all where quotes follow in the document: what they hold is read in its place. Nothing is
    assumed of what else there is in the document and in the tag, but that no other script begins there and no
    other source follows in the tag. -/
theorem scriptSources_query (page : SoleScript) {path query : String} {mark : Char}
    (hpath : ∀ c ∈ path.toList, isQuote c = false ∧ c ≠ '?' ∧ c ≠ '#' ∧ c ≠ '>')
    (hscheme : ¬ [':', '/', '/'] <:+: path.toList) (hhost : ¬ ['/', '/'] <+: path.toList)
    (hmark : mark = '?' ∨ mark = '#') (hquery : ∀ c ∈ query.toList, isQuote c = false) :
    (path ≠ "" → (∀ found, ¬ page.Misread path.toList found) → scriptSources (page.text path) = [path]) ∧
    ((∀ found, ¬ page.Misread query.toList found) →
      scriptSources (page.text (path ++ String.singleton mark ++ query)) =
        if [':', '/', '/'] <:+: query.toList then [] else [path]) ∧
    (∀ found, page.Misread path.toList found → scriptSources (page.text path) = paths found) ∧
    ∀ found, page.Misread query.toList found →
      scriptSources (page.text (path ++ String.singleton mark ++ query)) = paths found := by
  have hplain : ∀ c ∈ path.toList, c ≠ '?' ∧ c ≠ '#' := fun c hc => ⟨(hpath c hc).2.1, (hpath c hc).2.2.1⟩
  have hinside : '>' ∉ path.toList := fun hmem => (hpath _ hmem).2.2.2 rfl
  have hvalue : (path ++ String.singleton mark ++ query).toList = path.toList ++ mark :: query.toList := by simp
  refine ⟨fun hne hread => ?_, fun hread => ?_, fun found => scriptSources_misread, fun found hmisread => ?_⟩
  · rw [scriptSources_value hne (fun c hc => (hpath c hc).1) hread, paths_local hplain hscheme hhost,
      String.ofList_toList]
  · have hne : path ++ String.singleton mark ++ query ≠ "" := by
      rw [Ne, ← String.toList_inj, hvalue]
      simp
    have hquote : ∀ c ∈ (path ++ String.singleton mark ++ query).toList, isQuote c = false := by
      intro c hc
      rw [hvalue, List.mem_append, List.mem_cons] at hc
      rcases hc with hc | rfl | hc
      · exact (hpath c hc).1
      · rcases hmark with rfl | rfl <;> decide
      · exact hquery c hc
    have hread' : ∀ found, ¬ page.Misread (path ++ String.singleton mark ++ query).toList found := by
      intro found
      rw [hvalue, misread_query hinside hmark]
      exact hread found
    rw [scriptSources_value hne hquote hread', hvalue, paths_query hplain hscheme hhost hmark, String.ofList_toList]
  · refine scriptSources_misread ?_
    rw [hvalue, misread_query hinside hmark]
    exact hmisread

theorem spells_script : Spells ['s', 'c', 'r', 'i', 'p', 't'] "script".toList := by
  simp [Spells, isLetter]

theorem lead_src : Lead " src=".toList :=
  ⟨' ', "src".toList, [], [], rfl, by decide, by simp [Spells, isLetter], nofun, nofun⟩

theorem scriptFree_paragraph : ScriptFree "></script><p id=\"a\">".toList := by decide +kernel

/-- A document with quotes after its script. -/
def paragraph : SoleScript where
  before := []
  name := "script".toList
  attributes := []
  lead := " src=".toList
  quote := '"'
  after := "></script><p id=\"a\">".toList
  before_free := scriptFree_nil
  name_spells := spells_script
  attributes_inside := List.not_mem_nil
  lead_leads := lead_src
  quote_isQuote := rfl
  after_free := scriptFree_paragraph
  after_sourceless := sourceless_end _

/-- An address in the query keeps a script from being loaded, and a query like the beginning of a source puts
    another text in its place. Nothing is found for an empty value. -/
theorem scriptSources_query_address :
    scriptSources (paragraph.text "app.js") = ["app.js"] ∧
      scriptSources (paragraph.text "app.js?u=http://x") = [] ∧
      scriptSources (paragraph.text "app.js?x src=") = ["></script><p id="] ∧
      scriptSources (paragraph.text "") = [] ∧ scriptSources (paragraph.text "?v") = [""] := by
  decide +kernel

theorem scriptSources_query_version :
    scriptSources (paragraph.text "app.js") = ["app.js"] ∧
      scriptSources (paragraph.text "app.js?v=3") = ["app.js"] ∧
      scriptSources (paragraph.text "app.js#u=http://x") = [] ∧
      scriptSources (paragraph.text "app.js?x src=") = ["></script><p id="] := by
  have hread (path : String) (h : ∀ c ∈ path.toList, isBlank c = false) (found : List Char) :
      ¬ paragraph.Misread path.toList found := fun hmisread => by
    obtain ⟨c, hc, hblank⟩ := hmisread.exists_blank
    exact absurd hblank (by simp [h c hc])
  have hmisread : paragraph.Misread "x src=".toList "></script><p id=".toList :=
    ⟨⟨['x'], paragraph.lead, rfl, by decide, paragraph.lead_leads⟩, '"', "a\">".toList, rfl, by decide,
      List.all_iff_forall_prop.mp (by decide), rfl⟩
  have hpath : ∀ c ∈ "app.js".toList, isQuote c = false ∧ c ≠ '?' ∧ c ≠ '#' ∧ c ≠ '>' :=
    List.all_iff_forall_prop.mp (by decide)
  have hscheme : ¬ [':', '/', '/'] <:+: "app.js".toList := by decide
  have hhost : ¬ ['/', '/'] <+: "app.js".toList := by decide
  obtain ⟨halone, hversion, -⟩ := scriptSources_query paragraph hpath hscheme hhost (.inl rfl)
    (List.all_iff_forall_prop.mp (by decide) : ∀ c ∈ "v=3".toList, isQuote c = false)
  obtain ⟨-, haddress, -⟩ := scriptSources_query paragraph hpath hscheme hhost (.inr rfl)
    (List.all_iff_forall_prop.mp (by decide) : ∀ c ∈ "u=http://x".toList, isQuote c = false)
  obtain ⟨-, -, -, hsource⟩ := scriptSources_query paragraph hpath hscheme hhost (.inl rfl)
    (List.all_iff_forall_prop.mp (by decide) : ∀ c ∈ "x src=".toList, isQuote c = false)
  exact ⟨halone (by decide) (hread _ (List.all_iff_forall_prop.mp (by decide))),
    (hversion (hread _ (List.all_iff_forall_prop.mp (by decide)))).trans (if_neg (by decide +kernel)),
    (haddress (hread _ (List.all_iff_forall_prop.mp (by decide)))).trans (if_pos (by decide +kernel)),
    hsource _ hmisread⟩

end SoleScript

end PageProbe.Html
