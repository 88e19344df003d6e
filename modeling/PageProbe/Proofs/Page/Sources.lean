import Mathlib.Data.List.Forall2
import Mathlib.Data.List.TakeWhile
import PageProbe.Page.Html

namespace PageProbe.Html

open Text (isBlank isLetter)

/-- Characters that stand around names and values. -/
def isMark (c : Char) : Bool := c ∈ ['<', '>', '=', '?', '#'] || isQuote c || isBlank c

/-- A text of the given letters, case set aside. -/
def Spells (letters name : List Char) : Prop := List.Forall₂ (fun l c => isLetter l c = true) letters name

/-- What stands in front of the quotes of a source: a blank, its name and an equals sign. -/
def Lead (cs : List Char) : Prop :=
  ∃ blank name gap gap', cs = blank :: (name ++ (gap ++ '=' :: gap')) ∧ isBlank blank = true ∧
    Spells ['s', 'r', 'c'] name ∧ (∀ c ∈ gap, isBlank c = true) ∧ ∀ c ∈ gap', isBlank c = true

/-- No source begins before the end of a tag. -/
def Sourceless (cs : List Char) : Prop :=
  ∀ front lead back, cs = front ++ (lead ++ back) → '>' ∉ front → ¬ Lead lead

/-- No script begins in a text. -/
def ScriptFree (cs : List Char) : Prop :=
  ∀ front name back, cs = front ++ '<' :: (name ++ back) → ¬ Spells ['s', 'c', 'r', 'i', 'p', 't'] name

theorem isMark_of_isLetter {l c : Char} (hl : l ∈ ['s', 'c', 'r', 'i', 'p', 't']) (h : isLetter l c = true) :
    isMark c = false := by
  have hcases : c = l ∨ c = l.toUpper ∨ c = '\u017F' ∨ c = '\u212A' := by
    simp only [isLetter, Bool.or_eq_true, Bool.and_eq_true, beq_iff_eq] at h
    tauto
  simp only [List.mem_cons, List.not_mem_nil, or_false] at hl
  rcases hcases with rfl | rfl | rfl | rfl
  · rcases hl with rfl | rfl | rfl | rfl | rfl | rfl <;> decide
  · rcases hl with rfl | rfl | rfl | rfl | rfl | rfl <;> decide
  · decide
  · decide

theorem isLetter_of_isMark {l c : Char} (hl : l ∈ ['s', 'c', 'r', 'i', 'p', 't']) (hc : isMark c = true) :
    isLetter l c = false := by
  by_contra h
  rw [Bool.not_eq_false] at h
  rw [isMark_of_isLetter hl h] at hc
  cases hc

theorem isMark_of_isBlank {c : Char} (h : isBlank c = true) : isMark c = true := by simp [isMark, h]

theorem isMark_of_isQuote {c : Char} (h : isQuote c = true) : isMark c = true := by simp [isMark, h]

theorem isBlank_of_isQuote {c : Char} (h : isQuote c = true) : isBlank c = false := by
  rw [isQuote, Bool.or_eq_true, beq_iff_eq, beq_iff_eq] at h
  rcases h with rfl | rfl <;> decide

theorem Spells.unmarked {letters name : List Char} (h : Spells letters name)
    (hletters : letters ⊆ ['s', 'c', 'r', 'i', 'p', 't']) : ∀ c ∈ name, isMark c = false := by
  induction h with
  | nil => nofun
  | cons hc _ ih =>
    obtain ⟨hl, hletters⟩ := List.cons_subset.mp hletters
    exact List.forall_mem_cons.mpr ⟨isMark_of_isLetter hl hc, ih hletters⟩

theorem afterLetters_eq_some {letters cs rest : List Char} :
    afterLetters letters cs = some rest ↔ ∃ name, Spells letters name ∧ cs = name ++ rest := by
  induction letters generalizing cs with
  | nil =>
    rw [afterLetters, Option.some_inj]
    refine ⟨fun h => ⟨[], .nil, h⟩, ?_⟩
    rintro ⟨name, hname, rfl⟩
    cases hname
    rfl
  | cons l letters ih =>
    cases cs with
    | nil =>
      refine ⟨nofun, ?_⟩
      rintro ⟨name, hname, heq⟩
      cases hname
      cases heq
    | cons c cs =>
      rw [afterLetters]
      constructor
      · intro h
        split at h
        · next hc =>
          obtain ⟨name, hname, rfl⟩ := ih.mp h
          exact ⟨c :: name, .cons hc hname, rfl⟩
        · cases h
      · rintro ⟨name, hname, heq⟩
        cases hname with
        | cons hc hname =>
          cases heq
          rw [if_pos hc]
          exact ih.mpr ⟨_, hname, rfl⟩

/-- A character other than blanks, letters and the equals sign stands in no lead. -/
theorem Lead.notMem {lead : List Char} (h : Lead lead) {c : Char} (hmark : isMark c = true)
    (hblank : isBlank c = false) (hsign : c ≠ '=') : c ∉ lead := by
  obtain ⟨blank, name, gap, gap', rfl, hb, hname, hgap, hgap'⟩ := h
  have hunmarked := hname.unmarked (by decide)
  intro hmem
  simp only [List.mem_cons, List.mem_append] at hmem
  rcases hmem with rfl | hmem | hmem | rfl | hmem
  · exact absurd hb (by simp [hblank])
  · exact absurd (hunmarked c hmem) (by simp [hmark])
  · exact absurd (hgap c hmem) (by simp [hblank])
  · exact hsign rfl
  · exact absurd (hgap' c hmem) (by simp [hblank])

/-- There is no source where a tag ends at once. -/
theorem sourceless_end (cs : List Char) : Sourceless ('>' :: cs) := by
  intro front lead back hcs hfront hlead
  cases front with
  | nil =>
    cases lead with
    | nil =>
      obtain ⟨_, _, _, _, hnil, -⟩ := hlead
      cases hnil
    | cons c lead =>
      rw [List.nil_append, List.cons_append, List.cons.injEq] at hcs
      obtain ⟨rfl, -⟩ := hcs
      exact hlead.notMem (by decide) (by decide) (by decide) List.mem_cons_self
  | cons c front =>
    rw [List.cons_append, List.cons.injEq] at hcs
    exact hfront (hcs.1 ▸ List.mem_cons_self)

theorem Lead.unquoted {lead : List Char} (h : Lead lead) : ∀ c ∈ lead, isQuote c = false := by
  intro c hc
  by_contra hquote
  rw [Bool.not_eq_false] at hquote
  have hsign : c ≠ '=' := ne_of_apply_ne isQuote (by rw [hquote]; decide)
  exact h.notMem (isMark_of_isQuote hquote) (isBlank_of_isQuote hquote) hsign hc

/-- A value in quotes is all that stands between them, and is not empty. -/
theorem quoted_eq_some {cs value rest : List Char} :
    quoted cs = some (value, rest) ↔
      ∃ q q', isQuote q = true ∧ isQuote q' = true ∧ value ≠ [] ∧ (∀ c ∈ value, isQuote c = false) ∧
        cs = q :: (value ++ q' :: rest) := by
  constructor
  · intro h
    cases cs with
    | nil => cases h
    | cons q cs =>
      simp only [quoted] at h
      split at h
      · next hq =>
        rw [Bool.and_eq_true, Bool.not_eq_true', List.isEmpty_eq_false_iff] at hq
        split at h
        · next q' rest' hdrop =>
          cases h
          have hq' := List.head?_dropWhile_not (fun c => !isQuote c) cs
          rw [hdrop] at hq'
          refine ⟨q, q', hq.1, by simpa using hq', hq.2, fun c hc => ?_, ?_⟩
          · simpa using List.mem_takeWhile_imp hc
          · rw [← hdrop, List.takeWhile_append_dropWhile]
        · cases h
      · cases h
  · rintro ⟨q, q', hq, hq', hvalue, hunquoted, rfl⟩
    have hplain : ∀ c ∈ value, (!isQuote c) = true := fun c hc => by rw [hunquoted c hc]; rfl
    have htake : (value ++ q' :: rest).takeWhile (fun c => !isQuote c) = value := by
      rw [List.takeWhile_append_of_pos hplain, List.takeWhile_cons_of_neg (by simp [hq']), List.append_nil]
    have hdrop : (value ++ q' :: rest).dropWhile (fun c => !isQuote c) = q' :: rest := by
      rw [List.dropWhile_append_of_pos hplain, List.dropWhile_cons_of_neg (by simp [hq'])]
    simp only [quoted]
    rw [htake, hdrop, if_pos (by simp [hq, hvalue])]

theorem dropWhile_blanks {gap : List Char} (hgap : ∀ c ∈ gap, isBlank c = true) {c : Char}
    (hc : isBlank c = false) (cs : List Char) : (gap ++ c :: cs).dropWhile isBlank = c :: cs := by
  rw [List.dropWhile_append_of_pos hgap, List.dropWhile_cons_of_neg (by simp [hc])]

theorem sourceHere_lead {lead : List Char} (h : Lead lead) {q : Char} (hq : isQuote q = true)
    (rest : List Char) : sourceHere (lead ++ q :: rest) = quoted (q :: rest) := by
  obtain ⟨blank, name, gap, gap', rfl, hb, hname, hgap, hgap'⟩ := h
  have hafter : afterLetters ['s', 'r', 'c'] (name ++ (gap ++ '=' :: (gap' ++ q :: rest))) =
      some (gap ++ '=' :: (gap' ++ q :: rest)) := afterLetters_eq_some.mpr ⟨name, hname, rfl⟩
  simp only [List.cons_append, List.append_assoc, sourceHere]
  rw [if_pos hb, hafter]
  simp only [dropWhile_blanks hgap (by decide : isBlank '=' = false),
    dropWhile_blanks hgap' (isBlank_of_isQuote hq)]

theorem sourceHere_eq_some {cs : List Char} {found : List Char × List Char} (h : sourceHere cs = some found) :
    ∃ lead back, cs = lead ++ back ∧ Lead lead ∧ quoted back = some found := by
  cases cs with
  | nil => cases h
  | cons blank cs =>
    simp only [sourceHere] at h
    split at h
    · next hb =>
      split at h
      · next rest hafter =>
        obtain ⟨name, hname, rfl⟩ := afterLetters_eq_some.mp hafter
        split at h
        · next back hsign =>
          have hrest : rest.takeWhile isBlank ++ '=' :: (back.takeWhile isBlank ++ back.dropWhile isBlank) =
              rest := by
            rw [List.takeWhile_append_dropWhile, ← hsign, List.takeWhile_append_dropWhile]
          have hlead : Lead (blank :: (name ++ (rest.takeWhile isBlank ++ '=' :: back.takeWhile isBlank))) :=
            ⟨blank, name, _, _, rfl, hb, hname, fun c hc => List.mem_takeWhile_imp hc,
              fun c hc => List.mem_takeWhile_imp hc⟩
          exact ⟨_, back.dropWhile isBlank, by simpa using hrest.symm, hlead, h⟩
        · cases h
      · cases h
    · cases h

theorem sourceHere_of_not_blank {c : Char} (hc : isBlank c = false) (cs : List Char) :
    sourceHere (c :: cs) = none := by
  simp [sourceHere, hc]

theorem lastSource_cons {c : Char} (hc : c ≠ '>') (cs : List Char) :
    lastSource (c :: cs) = (lastSource cs).or (sourceHere (c :: cs)) := by
  rw [lastSource, if_neg (by simpa using hc)]

/-- A source that is found behind something is found with it in front, up to the end of the tag. -/
theorem lastSource_append {front cs : List Char} {found : List Char × List Char} (hfront : '>' ∉ front)
    (h : lastSource cs = some found) : lastSource (front ++ cs) = some found := by
  induction front with
  | nil => exact h
  | cons c front ih =>
    rw [List.mem_cons, not_or] at hfront
    rw [List.cons_append, lastSource_cons (Ne.symm hfront.1), ih hfront.2]
    rfl

theorem lastSource_eq_some {cs : List Char} {found : List Char × List Char} (h : lastSource cs = some found) :
    ∃ front lead back, cs = front ++ (lead ++ back) ∧ '>' ∉ front ∧ Lead lead ∧ quoted back = some found := by
  induction cs with
  | nil => cases h
  | cons c cs ih =>
    rw [lastSource] at h
    split at h
    · cases h
    · next hc =>
      rcases Option.or_eq_some_iff.mp h with h | ⟨-, h⟩
      · obtain ⟨front, lead, back, rfl, hfront, hlead, hquoted⟩ := ih h
        refine ⟨c :: front, lead, back, rfl, ?_, hlead, hquoted⟩
        rw [List.mem_cons, not_or]
        exact ⟨fun heq => hc (beq_iff_eq.mpr heq.symm), hfront⟩
      · obtain ⟨lead, back, hcs, hlead, hquoted⟩ := sourceHere_eq_some h
        exact ⟨[], lead, back, hcs, List.not_mem_nil, hlead, hquoted⟩

theorem lastSource_skip {front : List Char} (h : ∀ c ∈ front, c ≠ '>' ∧ isBlank c = false) (cs : List Char) :
    lastSource (front ++ cs) = lastSource cs := by
  induction front with
  | nil => rfl
  | cons c front ih =>
    obtain ⟨⟨hend, hblank⟩, hfront⟩ := List.forall_mem_cons.mp h
    rw [List.cons_append, lastSource_cons hend, ih hfront, sourceHere_of_not_blank hblank, Option.or_none]

/-- Blanks with another character than a letter behind them begin no source. -/
theorem lastSource_blanks {gap : List Char} (hgap : ∀ c ∈ gap, isBlank c = true) {c : Char}
    (hc : isMark c = true) (cs : List Char) : lastSource (gap ++ c :: cs) = lastSource (c :: cs) := by
  induction gap with
  | nil => rfl
  | cons b gap ih =>
    obtain ⟨hb, hgap⟩ := List.forall_mem_cons.mp hgap
    have hend : b ≠ '>' := ne_of_apply_ne isBlank (by rw [hb]; decide)
    have hnext : ∃ d ds, gap ++ c :: cs = d :: ds ∧ isMark d = true := by
      cases gap with
      | nil => exact ⟨c, cs, rfl, hc⟩
      | cons d gap => exact ⟨d, gap ++ c :: cs, rfl, isMark_of_isBlank (hgap d List.mem_cons_self)⟩
    obtain ⟨d, ds, hds, hd⟩ := hnext
    have hletter : isLetter 's' d = false := isLetter_of_isMark (by decide) hd
    have hnone : sourceHere (b :: (gap ++ c :: cs)) = none := by
      rw [hds]
      simp [sourceHere, afterLetters, hletter]
    rw [List.cons_append, lastSource_cons hend, ih hgap, hnone, Option.or_none]

/-- No source starts inside of a lead. -/
theorem lastSource_lead {lead : List Char} (h : Lead lead) {q : Char} (hq : isQuote q = true)
    (rest : List Char) :
    lastSource (lead ++ q :: rest) = (lastSource rest).or (quoted (q :: rest)) := by
  have hhere := sourceHere_lead h hq rest
  obtain ⟨blank, name, gap, gap', rfl, hb, hname, hgap, hgap'⟩ := h
  have hend : blank ≠ '>' := ne_of_apply_ne isBlank (by rw [hb]; decide)
  have hquote : q ≠ '>' := ne_of_apply_ne isQuote (by rw [hq]; decide)
  have hplain : ∀ c ∈ name, c ≠ '>' ∧ isBlank c = false := by
    intro c hc
    have hunmarked := hname.unmarked (by decide) c hc
    simp only [isMark, Bool.or_eq_false_iff, decide_eq_false_iff_not] at hunmarked
    exact ⟨fun heq => hunmarked.1.1 (by simp [heq]), hunmarked.2⟩
  have hinside : lastSource (name ++ (gap ++ '=' :: (gap' ++ q :: rest))) = lastSource rest := by
    rw [lastSource_skip hplain, lastSource_blanks hgap (by decide)]
    have hsign := @lastSource_skip ['='] (List.forall_mem_singleton.mpr (by decide)) (gap' ++ q :: rest)
    have hopen := @lastSource_skip [q] (List.forall_mem_singleton.mpr ⟨hquote, isBlank_of_isQuote hq⟩) rest
    exact hsign.trans ((lastSource_blanks hgap' (isMark_of_isQuote hq) rest).trans hopen)
  simp only [List.cons_append, List.append_assoc] at hhere ⊢
  rw [lastSource_cons hend, hinside, hhere]

/-- What stands in front of a text up to a character that it does not hold stands in front of what is before
    that character. -/
theorem prefix_of_append_cons {part front back : List Char} {c : Char} (h : part <+: front ++ c :: back)
    (hc : c ∉ part) : part <+: front := by
  rcases List.prefix_or_prefix_of_prefix h (List.prefix_append front (c :: back)) with hpart | ⟨more, rfl⟩
  · exact hpart
  · rw [List.prefix_append_right_inj] at h
    cases more with
    | nil => exact (List.append_nil front).symm ▸ List.prefix_rfl
    | cons d more =>
      obtain ⟨rfl, -⟩ := List.cons_prefix_cons.mp h
      exact absurd (List.mem_append_right front List.mem_cons_self) hc

theorem suffix_of_append_cons {part front back : List Char} {c : Char} (h : part <:+ front ++ c :: back)
    (hc : c ∉ part) : part <:+ back := by
  rw [← List.reverse_prefix] at h ⊢
  rw [List.reverse_append, List.reverse_cons, List.append_assoc] at h
  exact prefix_of_append_cons h (by rwa [List.mem_reverse])

theorem scriptFree_cons_iff {c : Char} {cs : List Char} :
    ScriptFree (c :: cs) ↔
      (c = '<' → afterLetters ['s', 'c', 'r', 'i', 'p', 't'] cs = none) ∧ ScriptFree cs := by
  constructor
  · refine fun h => ⟨?_, fun front name back hcs => h (c :: front) name back (by rw [hcs]; rfl)⟩
    rintro rfl
    refine Option.eq_none_iff_forall_ne_some.mpr fun rest hrest => ?_
    obtain ⟨name, hname, rfl⟩ := afterLetters_eq_some.mp hrest
    exact h [] name rest rfl hname
  · rintro ⟨hhere, hbehind⟩ front name back hcs hname
    cases front with
    | nil =>
      rw [List.nil_append, List.cons.injEq] at hcs
      rw [afterLetters_eq_some.mpr ⟨name, hname, hcs.2⟩] at hhere
      cases hhere hcs.1
    | cons d front => exact hbehind front name back (List.cons.inj hcs).2 hname

theorem scriptFree_nil : ScriptFree [] := by
  intro front name back hcs
  cases front <;> cases hcs

instance decidableScriptFree : (cs : List Char) → Decidable (ScriptFree cs)
  | [] => isTrue scriptFree_nil
  | _ :: cs =>
    have := decidableScriptFree cs
    decidable_of_iff' _ scriptFree_cons_iff

theorem ScriptFree.suffix {cs rest : List Char} (h : ScriptFree cs) (hrest : rest <:+ cs) : ScriptFree rest := by
  obtain ⟨skipped, rfl⟩ := hrest
  intro front name back hcs
  exact h (skipped ++ front) name back (by rw [hcs, List.append_assoc])

/-- A tag behind a text makes no script of what begins in it. -/
theorem ScriptFree.afterLetters_eq_none {cs : List Char} (h : ScriptFree ('<' :: cs)) (more : List Char) :
    afterLetters ['s', 'c', 'r', 'i', 'p', 't'] (cs ++ '<' :: more) = none := by
  refine Option.eq_none_iff_forall_ne_some.mpr fun rest hrest => ?_
  obtain ⟨name, hname, hcs⟩ := afterLetters_eq_some.mp hrest
  have hopen : '<' ∉ name := fun hmem => absurd (hname.unmarked (by decide) _ hmem) (by decide)
  obtain ⟨back, rfl⟩ := prefix_of_append_cons ⟨rest, hcs.symm⟩ hopen
  exact h [] name back rfl hname

/-- A search goes on behind a character that begins no script. -/
theorem references_cons {c : Char} {cs : List Char}
    (h : c = '<' → afterLetters ['s', 'c', 'r', 'i', 'p', 't'] cs = none) (fuel : Nat) :
    references (fuel + 1) (c :: cs) = references fuel cs := by
  simp only [references]
  by_cases hc : c = '<'
  · rw [if_pos (beq_iff_eq.mpr hc), h hc]
    rfl
  · rw [if_neg (by simpa using hc)]

theorem references_of_scriptFree {cs : List Char} (h : ScriptFree cs) (fuel : Nat) : references fuel cs = [] := by
  induction fuel generalizing cs with
  | zero => rw [references]
  | succ fuel ih =>
    cases cs with
    | nil => rw [references]; nofun
    | cons c cs =>
      obtain ⟨hhere, hbehind⟩ := scriptFree_cons_iff.mp h
      rw [references_cons hhere, ih hbehind]

theorem references_append {before : List Char} (h : ScriptFree before) (fuel : Nat) (cs : List Char) :
    references (before.length + fuel) (before ++ '<' :: cs) = references fuel ('<' :: cs) := by
  induction before with
  | nil => rw [List.length_nil, Nat.zero_add, List.nil_append]
  | cons c before ih =>
    have hhere : c = '<' → afterLetters ['s', 'c', 'r', 'i', 'p', 't'] (before ++ '<' :: cs) = none := by
      rintro rfl
      exact h.afterLetters_eq_none cs
    rw [List.length_cons, Nat.add_right_comm, List.cons_append, references_cons hhere,
      ih (scriptFree_cons_iff.mp h).2]

end PageProbe.Html
