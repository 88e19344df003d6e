import PageProbe.Injection.Stream
import PageProbe.Proofs.Injection.Weave

namespace PageProbe

open Text (Bytes)
open Insertion

theorem Chunk.covers_iff (c : Chunk) (point : Nat) :
    c.covers point = true ↔ c.offset ≤ point ∧ (point < c.stop ∨ c.isLast = true ∧ point = c.stop) := by
  simp [Chunk.covers]

namespace PageResource

/-- The body in one piece. -/
def whole (r : PageResource) : Chunk := ⟨r.uri, r.contentType, 0, r.body, true⟩

/-- The piece of a size at the front of what is left of a body from an offset on. -/
def pieceAt (r : PageResource) (size offset : Nat) (rest : Bytes) : Chunk :=
  ⟨r.uri, r.contentType, offset, rest.take (size + 1), (rest.drop (size + 1)).isEmpty⟩

@[simp] theorem chunksFrom_nil (r : PageResource) (size offset : Nat) :
    r.chunksFrom size offset [] = [] := by
  rw [chunksFrom]

theorem chunksFrom_eq_pieceAt_cons (r : PageResource) (size offset : Nat) {rest : Bytes}
    (hrest : rest ≠ []) :
    r.chunksFrom size offset rest =
      r.pieceAt size offset rest ::
        r.chunksFrom size (offset + (size + 1)) (rest.drop (size + 1)) := by
  cases rest with
  | nil => exact absurd rfl hrest
  | cons b bs => rw [chunksFrom, pieceAt, List.take_succ_cons, List.drop_succ_cons]

/-- A last piece holds all that is left. -/
theorem pieceAt_of_drop_eq_nil (r : PageResource) {size : Nat} (offset : Nat) {rest : Bytes}
    (hlast : rest.drop (size + 1) = []) :
    r.pieceAt size offset rest = ⟨r.uri, r.contentType, offset, rest, true⟩ := by
  have htake : rest.take (size + 1) = rest := List.take_of_length_le (List.drop_eq_nil_iff.mp hlast)
  rw [pieceAt, htake, hlast]
  rfl

@[simp] theorem pieceAt_offset (r : PageResource) (size offset : Nat) (rest : Bytes) :
    (r.pieceAt size offset rest).offset = offset := rfl

@[simp] theorem pieceAt_data (r : PageResource) (size offset : Nat) (rest : Bytes) :
    (r.pieceAt size offset rest).data = rest.take (size + 1) := rfl

/-- A piece that is not the last has the full size. -/
theorem length_take_of_more {size : Nat} {rest : Bytes}
    (hmore : rest.drop (size + 1) ≠ []) : (rest.take (size + 1)).length = size + 1 := by
  have hlen : size + 1 < rest.length :=
    Nat.lt_of_not_le fun hle => hmore (List.drop_eq_nil_of_le hle)
  rw [List.length_take]
  omega

theorem pieceAt_isLast (r : PageResource) {size : Nat} (offset : Nat) {rest : Bytes}
    (hmore : rest.drop (size + 1) ≠ []) : (r.pieceAt size offset rest).isLast = false := by
  simpa [pieceAt] using hmore

/-- A piece that is not the last covers what lies in front of its end. -/
theorem covers_pieceAt_of_more (r : PageResource) {size offset point : Nat} {rest : Bytes}
    (hmore : rest.drop (size + 1) ≠ []) (hoffset : offset ≤ point) :
    (r.pieceAt size offset rest).covers point = true ↔ point < offset + (size + 1) := by
  rw [Chunk.covers_iff, Chunk.stop, r.pieceAt_isLast offset hmore, pieceAt_offset, pieceAt_data,
    length_take_of_more hmore]
  simp [hoffset]

/-- The last piece covers the end of the body as well. -/
theorem covers_pieceAt_of_last (r : PageResource) {size offset point : Nat} {rest : Bytes}
    (hlast : rest.drop (size + 1) = []) (hoffset : offset ≤ point) :
    (r.pieceAt size offset rest).covers point = true ↔ point ≤ offset + rest.length := by
  rw [r.pieceAt_of_drop_eq_nil offset hlast, Chunk.covers_iff]
  simp only [Chunk.stop, true_and]
  omega

/-- Pieces as large as the body leave it whole. -/
theorem chunks_length (r : PageResource) (hbody : r.body ≠ []) :
    r.chunks r.body.length = [r.whole] := by
  have hpos : 0 < r.body.length := List.length_pos_iff.mpr hbody
  have hlast : r.body.drop (r.body.length - 1 + 1) = [] := List.drop_eq_nil_of_le (by omega)
  rw [chunks, chunksFrom_eq_pieceAt_cons r _ _ hbody, pieceAt_of_drop_eq_nil r 0 hlast, hlast,
    chunksFrom_nil]
  rfl

end PageResource

/-- A text that begins with a line feed does not begin with a semicolon. -/
theorem Text.head?_encode_lineFeed_append (s : String) :
    (Text.encode ("\n" ++ s)).head? = some 0x0A := by
  have hchars : ("\n" ++ s).toList = '\n' :: s.toList := by rw [String.toList_append]; rfl
  have hbyte : String.utf8EncodeChar '\n' = [0x0A] := by decide
  rw [Text.encode, hchars, List.flatMap_cons, hbyte]
  rfl

/-- What the injector splices begins with a line feed. -/
theorem InjectionTarget.insertions_startPlain (target : InjectionTarget) (t : Tuple) :
    ∀ x ∈ target.insertions t, x.StartsPlain := by
  have hcall (name : String) (args : List String) :
      (Text.encode (callStatement name args)).head? ≠ some 0x3B := by
    rw [callStatement, String.append_assoc, String.append_assoc, String.append_assoc,
      Text.head?_encode_lineFeed_append]
    decide
  intro x hx
  rw [InjectionTarget.insertions] at hx
  rcases List.mem_cons.mp hx with rfl | hx
  · rw [StartsPlain, Harness.render, String.append_assoc, Text.head?_encode_lineFeed_append]
    decide
  · split at hx
    · exact absurd hx List.not_mem_nil
    · obtain ⟨d, _, rfl⟩ := List.mem_map.mp hx
      exact hcall d.name d.args

theorem InjectionTarget.point_le_of_mem_insertions {target : InjectionTarget} {t : Tuple}
    (hbehind : ∀ d ∈ target.dependencies, target.point ≤ d.point) :
    ∀ x ∈ target.insertions t, target.point ≤ x.point := by
  intro x hx
  rw [InjectionTarget.insertions] at hx
  rcases List.mem_cons.mp hx with rfl | hx
  · exact Nat.le_refl _
  · split at hx
    · exact absurd hx List.not_mem_nil
    · obtain ⟨d, hd, rfl⟩ := List.mem_map.mp hx
      exact hbehind d hd

namespace Injector

theorem arm_of_inactive {i : Injector} (target : InjectionTarget) (c : Chunk)
    (h : i.active = false) : i.arm target c = i := by
  rw [arm]
  split
  · simp [h]
  · rfl

theorem arm_of_not_covers (i : Injector) {target : InjectionTarget} {c : Chunk}
    (h : c.covers target.point = false) : i.arm target c = i := by
  rw [arm]
  split
  · simp [h]
  · rfl

theorem arm_of_covers {i : Injector} {target : InjectionTarget} {c : Chunk} {t : Tuple}
    {rest : List Tuple} (hactive : i.active = true) (hqueue : i.queue = t :: rest)
    (hcovers : c.covers target.point = true) :
    i.arm target c =
      { i with active := false, queue := rest, carried := target.insertions t } := by
  rw [arm, hqueue]
  simp [hactive, hcovers]

/-- An injector takes its next tuple at a piece and carries the insertions for it, or stays as it is. -/
theorem arm_cases (i : Injector) (target : InjectionTarget) (c : Chunk) :
    i.arm target c = i ∨
      ∃ t rest, i.active = true ∧ i.queue = t :: rest ∧ c.covers target.point = true ∧
        i.arm target c = { i with active := false, queue := rest, carried := target.insertions t } := by
  cases hactive : i.active with
  | false => exact .inl (arm_of_inactive target c hactive)
  | true =>
    cases hcovers : c.covers target.point with
    | false => exact .inl (arm_of_not_covers i hcovers)
    | true =>
      cases hqueue : i.queue with
      | nil => exact .inl (by rw [arm, hqueue])
      | cons t rest => exact .inr ⟨t, rest, rfl, rfl, rfl, arm_of_covers hactive hqueue hcovers⟩

/-- What becomes of a piece of the target's script, and of the injector. -/
theorem intercept_of_concerns {i : Injector} {target : InjectionTarget} {c : Chunk}
    (htarget : i.target = some target) (hconcerns : target.concerns c = true) :
    (i.intercept c).1 = (i.arm target c).pass c ∧
      pieceOf c (i.intercept c).2 =
        applyAll c.data c.offset ((i.arm target c).carried.filter fun x => c.covers x.point) := by
  simp only [intercept, htarget, hconcerns, if_true]
  split
  · rename_i hnone
    rw [hnone]
    exact ⟨rfl, rfl⟩
  · exact ⟨rfl, rfl⟩

/-- A piece either has nothing to do with the target, or arms the target's script and is passed. -/
theorem intercept_state (i : Injector) (piece : Chunk) :
    (i.intercept piece).1 = i ∨ ∃ target, i.target = some target ∧ target.concerns piece = true ∧
      (i.intercept piece).1 = (i.arm target piece).pass piece := by
  cases htarget : i.target with
  | none =>
    left
    simp only [intercept, htarget]
  | some target =>
    cases hconcerns : target.concerns piece with
    | false =>
      left
      simp [intercept, htarget, hconcerns]
    | true => exact .inr ⟨target, rfl, hconcerns, (intercept_of_concerns htarget hconcerns).1⟩

theorem pass_of_carried_eq_nil {i : Injector} (hcarried : i.carried = []) (c : Chunk) :
    i.pass c = i := by
  obtain ⟨active, queue, target, carried⟩ := i
  obtain rfl : carried = [] := hcarried
  rfl

/-- An injector that carries nothing lets everything pass that does not cover the injection point. -/
theorem intercept_of_uncovered {i : Injector} {target : InjectionTarget} {c : Chunk}
    (htarget : i.target = some target) (hcarried : i.carried = [])
    (huncovered : ¬ (target.concerns c = true ∧ c.covers target.point = true)) :
    i.intercept c = (i, none) := by
  cases hconcerns : target.concerns c with
  | false => simp [intercept, htarget, hconcerns]
  | true =>
    have hcovers : c.covers target.point = false := by
      simpa [hconcerns] using huncovered
    simp [intercept, htarget, hconcerns, arm_of_not_covers i hcovers, hcarried,
      pass_of_carried_eq_nil hcarried]

theorem interceptAll_cons (i : Injector) (c : Chunk) (cs : List Chunk) :
    i.interceptAll (c :: cs) =
      (((i.intercept c).1.interceptAll cs).1,
        pieceOf c (i.intercept c).2 ++ ((i.intercept c).1.interceptAll cs).2) := rfl

/-- The piece that covers the injection point is treated as by an injector that has carried the
    insertions up to it. -/
theorem interceptAll_of_covers {i : Injector} {target : InjectionTarget} {c : Chunk} {t : Tuple}
    {queue : List Tuple} (htarget : i.target = some target) (hconcerns : target.concerns c = true)
    (hactive : i.active = true) (hqueue : i.queue = t :: queue)
    (hcovers : c.covers target.point = true) (cs : List Chunk) :
    let loaded : Injector := { i with active := false, queue := queue, carried := target.insertions t }
    i.interceptAll (c :: cs) = loaded.interceptAll (c :: cs) := by
  intro loaded
  obtain ⟨hstate, hpiece⟩ := intercept_of_concerns htarget hconcerns
  obtain ⟨hstate', hpiece'⟩ := intercept_of_concerns (i := loaded) htarget hconcerns
  rw [arm_of_covers hactive hqueue hcovers] at hstate hpiece
  rw [arm_of_inactive target c rfl] at hstate' hpiece'
  rw [interceptAll_cons, interceptAll_cons, hstate, hpiece, hstate', hpiece']

/-- What an injector that is not armed makes of a piece that is not the last: the piece gets the
    insertions in front of its end, and the others are carried on. -/
theorem intercept_more {i : Injector} {target : InjectionTarget} {r : PageResource}
    (htarget : i.target = some target) (hconcerns : target.concerns r.whole = true)
    (hinactive : i.active = false) (hplain : ∀ x ∈ i.carried, x.StartsPlain) {size offset : Nat}
    {rest : Bytes} (hbehind : ∀ x ∈ i.carried, offset ≤ x.point)
    (hmore : rest.drop (size + 1) ≠ []) :
    pieceOf (r.pieceAt size offset rest) (i.intercept (r.pieceAt size offset rest)).2 =
        weaveFrom (i.carried.filter fun x => x.point < offset + (size + 1)) offset
          (rest.take (size + 1)) ∧
      (i.intercept (r.pieceAt size offset rest)).1 =
        { i with carried := i.carried.filter fun x => offset + (size + 1) ≤ x.point } := by
  obtain ⟨hstate, hpiece⟩ := intercept_of_concerns (c := r.pieceAt size offset rest) htarget hconcerns
  rw [arm_of_inactive target _ hinactive] at hstate hpiece
  have hlen : (rest.take (size + 1)).length = size + 1 := PageResource.length_take_of_more hmore
  have hcovers (x : Insertion) (hx : x ∈ i.carried) :
      (r.pieceAt size offset rest).covers x.point = decide (x.point < offset + (size + 1)) := by
    rw [Bool.eq_iff_iff, r.covers_pieceAt_of_more hmore (hbehind x hx), decide_eq_true_eq]
  have hnow : (i.carried.filter fun x => (r.pieceAt size offset rest).covers x.point) =
      i.carried.filter fun x => x.point < offset + (size + 1) := List.filter_congr hcovers
  have hkept : (i.carried.filter fun x => !(r.pieceAt size offset rest).covers x.point &&
        decide ((r.pieceAt size offset rest).offset ≤ x.point)) =
      i.carried.filter fun x => offset + (size + 1) ≤ x.point := by
    apply List.filter_congr
    intro x hx
    have hle := hbehind x hx
    rw [hcovers x hx, PageResource.pieceAt_offset, Bool.eq_iff_iff]
    simp [hle]
  refine ⟨?_, by rw [hstate, pass, hkept]⟩
  rw [hpiece, hnow, PageResource.pieceAt_data, PageResource.pieceAt_offset]
  apply applyAll_eq_weaveFrom
  · intro x hx
    exact hplain x (List.mem_filter.mp hx).1
  · intro x hx
    obtain ⟨hx, hlt⟩ := List.mem_filter.mp hx
    have hle := hbehind x hx
    simp only [decide_eq_true_eq] at hlt
    omega

/-- What an injector that is not armed makes of the last piece, which gets all insertions up to its
    end. -/
theorem intercept_last {i : Injector} {target : InjectionTarget} {r : PageResource}
    (htarget : i.target = some target) (hconcerns : target.concerns r.whole = true)
    (hinactive : i.active = false) (hplain : ∀ x ∈ i.carried, x.StartsPlain) {size offset : Nat}
    {rest : Bytes} (hbehind : ∀ x ∈ i.carried, offset ≤ x.point)
    (hlast : rest.drop (size + 1) = []) :
    pieceOf (r.pieceAt size offset rest) (i.intercept (r.pieceAt size offset rest)).2 =
        weaveFrom i.carried offset rest ∧
      (i.intercept (r.pieceAt size offset rest)).1.queue = i.queue := by
  obtain ⟨hstate, hpiece⟩ := intercept_of_concerns (c := r.pieceAt size offset rest) htarget hconcerns
  rw [arm_of_inactive target _ hinactive] at hstate hpiece
  rw [hstate]
  refine ⟨?_, rfl⟩
  have hcovers (x : Insertion) (hx : x ∈ i.carried) :=
    r.covers_pieceAt_of_last hlast (hbehind x hx)
  have htake : rest.take (size + 1) = rest := List.take_of_length_le (List.drop_eq_nil_iff.mp hlast)
  rw [hpiece, PageResource.pieceAt_data, PageResource.pieceAt_offset, htake, applyAll_eq_weaveFrom]
  · apply weaveFrom_filter
    intro x hx _ hhigh
    exact (hcovers x hx).mpr hhigh
  · intro x hx
    exact hplain x (List.mem_filter.mp hx).1
  · intro x hx
    obtain ⟨hx, hcovered⟩ := List.mem_filter.mp hx
    exact ⟨hbehind x hx, (hcovers x hx).mp hcovered⟩

/-- An injector that is not armed any more puts the insertions that it carries into what is left of
    the body. None of them may lie in front of it. -/
theorem interceptAll_of_inactive {i : Injector} {target : InjectionTarget} {r : PageResource}
    (htarget : i.target = some target) (hconcerns : target.concerns r.whole = true)
    (hinactive : i.active = false) (hplain : ∀ x ∈ i.carried, x.StartsPlain) (size : Nat)
    {offset : Nat} {rest : Bytes} (hbehind : ∀ x ∈ i.carried, offset ≤ x.point) (hrest : rest ≠ []) :
    (i.interceptAll (r.chunksFrom size offset rest)).2 = weaveFrom i.carried offset rest ∧
      (i.interceptAll (r.chunksFrom size offset rest)).1.queue = i.queue := by
  -- The carried list changes from piece to piece, so the induction is on what is left of the body.
  induction hn : rest.length using Nat.strongRecOn generalizing i offset rest with
  | _ n ih =>
    rw [r.chunksFrom_eq_pieceAt_cons size offset hrest, interceptAll_cons]
    by_cases hlast : rest.drop (size + 1) = []
    · obtain ⟨hpiece, hqueue⟩ := intercept_last htarget hconcerns hinactive hplain hbehind hlast
      rw [hlast, PageResource.chunksFrom_nil, hpiece]
      exact ⟨List.append_nil _, hqueue⟩
    · obtain ⟨hpiece, hstate⟩ := intercept_more htarget hconcerns hinactive hplain hbehind hlast
      have hlen := PageResource.length_take_of_more hlast
      have hshorter : (rest.drop (size + 1)).length < n := by
        have hpos := List.length_pos_iff.mpr hrest
        rw [List.length_drop]
        omega
      let kept : Injector :=
        { i with carried := i.carried.filter fun x => offset + (size + 1) ≤ x.point }
      have hplainKept (x : Insertion) (hx : x ∈ kept.carried) : x.StartsPlain :=
        hplain x (List.mem_filter.mp hx).1
      have hbehindKept (x : Insertion) (hx : x ∈ kept.carried) : offset + (size + 1) ≤ x.point := by
        simpa using (List.mem_filter.mp hx).2
      obtain ⟨hout, hqueue⟩ := ih _ hshorter (i := kept) htarget hinactive hplainKept hbehindKept hlast rfl
      have hlater := weaveFrom_filter i.carried (fun x => offset + (size + 1) ≤ x.point)
        (offset + (size + 1)) (rest.drop (size + 1)) (fun x _ hlow _ => by simpa using hlow)
      have hparts := weaveFrom_append i.carried offset (rest.take (size + 1)) (rest.drop (size + 1))
      rw [List.take_append_drop, hlen] at hparts
      rw [hstate, hpiece, hout, hlater, hparts]
      exact ⟨rfl, hqueue⟩

/-- An armed injector puts the insertions for its next tuple into what is left of the body, if that
    reaches up to the injection point. Otherwise the body comes out as it is, and the tuple stays. -/
theorem interceptAll_of_active {i : Injector} {target : InjectionTarget} {r : PageResource}
    {t : Tuple} {queue : List Tuple} (htarget : i.target = some target)
    (hconcerns : target.concerns r.whole = true) (hactive : i.active = true)
    (hqueue : i.queue = t :: queue) (hcarried : i.carried = [])
    (hbehind : ∀ x ∈ target.insertions t, target.point ≤ x.point) (size : Nat) {offset : Nat}
    {rest : Bytes} (hoffset : offset ≤ target.point) (hrest : rest ≠ []) :
    (target.point ≤ offset + rest.length →
      (i.interceptAll (r.chunksFrom size offset rest)).2 =
          weaveFrom (target.insertions t) offset rest ∧
        (i.interceptAll (r.chunksFrom size offset rest)).1.queue = queue) ∧
    (offset + rest.length < target.point →
      (i.interceptAll (r.chunksFrom size offset rest)).2 = rest ∧
        (i.interceptAll (r.chunksFrom size offset rest)).1.queue = t :: queue) := by
  induction hn : rest.length using Nat.strongRecOn generalizing offset rest with
  | _ n ih =>
    subst hn
    rw [r.chunksFrom_eq_pieceAt_cons size offset hrest]
    by_cases hcovers : (r.pieceAt size offset rest).covers target.point = true
    · have hinside : target.point ≤ offset + rest.length := by
        have htake := List.length_take_le' (size + 1) rest
        have hpoint := ((Chunk.covers_iff _ _).mp hcovers).2
        rw [Chunk.stop, PageResource.pieceAt_offset, PageResource.pieceAt_data] at hpoint
        omega
      rw [interceptAll_of_covers (c := r.pieceAt size offset rest) htarget hconcerns hactive hqueue hcovers,
        ← r.chunksFrom_eq_pieceAt_cons size offset hrest]
      have hdone := interceptAll_of_inactive
        (i := { i with active := false, queue := queue, carried := target.insertions t })
        htarget hconcerns rfl (target.insertions_startPlain t) size
        (fun x hx => Nat.le_trans hoffset (hbehind x hx)) hrest
      exact ⟨fun _ => hdone, fun houtside => absurd hinside (by omega)⟩
    · rw [interceptAll_cons, intercept_of_uncovered htarget hcarried fun h => hcovers h.2, pieceOf,
        Option.getD_none, PageResource.pieceAt_data]
      by_cases hlast : rest.drop (size + 1) = []
      · have houtside : ¬ target.point ≤ offset + rest.length :=
          mt (r.covers_pieceAt_of_last hlast hoffset).mpr hcovers
        have htake : rest.take (size + 1) = rest :=
          List.take_of_length_le (List.drop_eq_nil_iff.mp hlast)
        rw [hlast, htake, PageResource.chunksFrom_nil]
        exact ⟨fun hinside => absurd hinside houtside, fun _ => ⟨List.append_nil _, hqueue⟩⟩
      · have hlater : ¬ target.point < offset + (size + 1) :=
          mt (r.covers_pieceAt_of_more hlast hoffset).mpr hcovers
        have hlen := PageResource.length_take_of_more hlast
        have hsplit : (rest.take (size + 1)).length + (rest.drop (size + 1)).length = rest.length := by
          rw [← List.length_append, List.take_append_drop]
        obtain ⟨hinside, hpast⟩ := @ih _ (by omega) (offset + (size + 1)) _ (by omega) hlast rfl
        refine ⟨fun hpoint => ?_, fun hpoint => ?_⟩
        · obtain ⟨hout, hleft⟩ := hinside (by omega)
          have hnone : ((target.insertions t).filter fun x =>
              x.point < offset + (rest.take (size + 1)).length) = [] := by
            rw [List.filter_eq_nil_iff]
            intro x hx
            have hle := hbehind x hx
            simp only [decide_eq_true_eq]
            omega
          have hparts := weaveFrom_append (target.insertions t) offset (rest.take (size + 1))
            (rest.drop (size + 1))
          rw [List.take_append_drop, hnone, weaveFrom_nil, hlen] at hparts
          rw [hout, hparts]
          exact ⟨rfl, hleft⟩
        · obtain ⟨hout, hleft⟩ := hpast (by omega)
          rw [hout, List.take_append_drop]
          exact ⟨rfl, hleft⟩

end Injector

/-- What is spliced for a tuple when a leaf is under test: the harness, and for a nested leaf a call of
    each leaf around it, outermost first. -/
def Leaf.insertionsFor (tree : FunctionTree) (leaf : Leaf) (harness : Harness)
    (dependencyArgs : List (List String)) (t : Tuple) : List Insertion :=
  ⟨leaf.injectionPoint, harness.render t⟩ ::
    if harness.isTopLevel then []
    else (tree.dependencies leaf).zipIdx.map fun (d, n) =>
      ⟨d.injectionPoint, callStatement d.name ((dependencyArgs[n]?).getD [])⟩

namespace InjectionTarget

/-- The target that a path names is made of the leaf there and of the leaves around it. -/
theorem ofPath_eq_ok {tree : FunctionTree} {path : String} {dependencyArgs : List (List String)}
    {target : InjectionTarget} {leaf : Leaf} (hleaf : tree.find? path = some leaf)
    (hpath : ofPath tree path dependencyArgs = .ok target) :
    Harness.ofLeaf leaf = .ok target.harness ∧ target.script = leaf.scriptName ∧
      target.point = leaf.injectionPoint ∧
      target.dependencies = (tree.dependencies leaf).zipIdx.map fun (d, n) =>
        ⟨d.name, d.injectionPoint, (dependencyArgs[n]?).getD []⟩ := by
  simp only [ofPath, hleaf] at hpath
  cases hharness : Harness.ofLeaf leaf with
  | error e =>
    rw [hharness] at hpath
    cases hpath
  | ok harness =>
    rw [hharness] at hpath
    cases hpath
    exact ⟨rfl, rfl, rfl, rfl⟩

theorem insertions_eq_insertionsFor {tree : FunctionTree} {leaf : Leaf} {target : InjectionTarget}
    {dependencyArgs : List (List String)} (hpoint : target.point = leaf.injectionPoint)
    (hdependencies : target.dependencies = (tree.dependencies leaf).zipIdx.map fun (d, n) =>
      ⟨d.name, d.injectionPoint, (dependencyArgs[n]?).getD []⟩) (t : Tuple) :
    target.insertions t = leaf.insertionsFor tree target.harness dependencyArgs t := by
  rw [insertions, Leaf.insertionsFor, hpoint, hdependencies, List.map_map]
  rfl

end InjectionTarget

/-- The body of the target's script, as a page gets it after the injector was armed, does not depend on
    the size of the pieces. It is what one pass over the whole body writes with the insertions for
    the first tuple, and just that tuple is taken. A body that ends before the injection point comes
    out unchanged, and no tuple is taken. The body may hold any bytes, and nothing is asked of the
    injector before the target was chosen. -/
theorem Injector.stream_eq_weave {before i : Injector} {tree : FunctionTree} {path : String}
    {dependencyArgs : List (List String)} {leaf : Leaf} {r : PageResource}
    (hselect : before.select tree path dependencyArgs = .ok i)
    (hleaf : tree.find? path = some leaf)
    (hbehind : ∀ d ∈ tree.dependencies leaf, leaf.injectionPoint ≤ d.injectionPoint)
    (hscript : ContentType.isScript r.contentType = true)
    (hname : scriptName r.uri = leaf.scriptName) (hbody : r.body ≠ [])
    (t : Tuple) (batch : List Tuple) :
    ∃ harness, Harness.ofLeaf leaf = .ok harness ∧
      (leaf.injectionPoint ≤ r.body.length → ∀ size,
        ((i.load (t :: batch)).activate.stream r size).2 =
            weave (leaf.insertionsFor tree harness dependencyArgs t) r.body ∧
          ((i.load (t :: batch)).activate.stream r size).1.queue = batch) ∧
      (r.body.length < leaf.injectionPoint → ∀ size,
        ((i.load (t :: batch)).activate.stream r size).2 = r.body ∧
          ((i.load (t :: batch)).activate.stream r size).1.queue = t :: batch) ∧
      ∀ size, ((i.load (t :: batch)).activate.stream r size).2 =
        pieceOf r.whole ((i.load (t :: batch)).activate.intercept r.whole).2 := by
  rw [select] at hselect
  cases htarget : InjectionTarget.ofPath tree path dependencyArgs with
  | error e =>
    rw [htarget] at hselect
    cases hselect
  | ok target =>
    rw [htarget] at hselect
    cases hselect
    obtain ⟨hharness, htargetScript, hpoint, hdependencies⟩ :=
      InjectionTarget.ofPath_eq_ok hleaf htarget
    have hinsertions := InjectionTarget.insertions_eq_insertionsFor hpoint hdependencies t
    have hconcerns : target.concerns r.whole = true := by
      simp [InjectionTarget.concerns, PageResource.whole, hscript, hname, htargetScript]
    have hpoints : ∀ x ∈ target.insertions t, target.point ≤ x.point := by
      apply InjectionTarget.point_le_of_mem_insertions
      rw [hdependencies]
      intro d hd
      obtain ⟨⟨e, n⟩, he, rfl⟩ := List.mem_map.mp hd
      rw [hpoint]
      exact hbehind e (List.fst_mem_of_mem_zipIdx he)
    let armed : Injector := (load ⟨false, [], some target, []⟩ (t :: batch)).activate
    have hqueue : armed.queue = t :: batch := rfl
    have hstream (size : Nat) := interceptAll_of_active (i := armed) (r := r) rfl hconcerns rfl hqueue rfl
      hpoints (size - 1) (Nat.zero_le _) hbody
    simp only [Nat.zero_add, hpoint] at hstream
    refine ⟨target.harness, hharness, ?_, ?_, ?_⟩
    · intro hinside size
      rw [← hinsertions]
      exact (hstream size).1 hinside
    · intro houtside size
      exact (hstream size).2 houtside
    · intro size
      have hwhole : (armed.stream r r.body.length).2 = pieceOf r.whole (armed.intercept r.whole).2 := by
        rw [stream, r.chunks_length hbody, interceptAll_cons]
        exact List.append_nil _
      refine Eq.trans ?_ hwhole
      rcases Nat.lt_or_ge r.body.length leaf.injectionPoint with houtside | hinside
      · exact ((hstream size).2 houtside).1.trans ((hstream r.body.length).2 houtside).1.symm
      · exact ((hstream size).1 hinside).1.trans ((hstream r.body.length).1 hinside).1.symm

namespace Sample

/-- A function inside of `outer`, whose statement ends at a semicolon. -/
def inner : Leaf := { Leaf.new "/a.js/outer/inner" ⟨1, 2⟩ with declarationEnd := some 2 }

def outer : Leaf := { Leaf.new "/a.js/outer" ⟨0, 4⟩ with children := [inner] }

def tree : FunctionTree := ⟨"page", [{ Leaf.new "/a.js" ⟨0, 5⟩ with children := [outer] }]⟩

/-- A script with a semicolon at the injection points of both functions. -/
def script : PageResource :=
  ⟨"http://localhost/a.js?v=1", "text/javascript; charset=utf-8", Text.encode "{i;};;"⟩

/-- An injector whose target is the inner function. -/
def selected : Injector :=
  ⟨false, [], some ⟨"/a.js/outer/inner", "a.js", 2, ⟨"inner", 2, none⟩, [⟨"outer", 4, ["1"]⟩]⟩, []⟩

end Sample

/-- Pieces of two bytes, which part both injection points from the text in front of them. -/
theorem Injector.stream_eq_weave_nested :
    ∃ harness, Harness.ofLeaf Sample.inner = .ok harness ∧
      ((Sample.selected.load [⟨"u", some []⟩]).activate.stream Sample.script 2).2 =
        weave (Sample.inner.insertionsFor Sample.tree harness [["1"]] ⟨"u", some []⟩)
          Sample.script.body ∧
      ((Sample.selected.load [⟨"u", some []⟩]).activate.stream Sample.script 2).1.queue = [] := by
  have hselect : Injector.empty.select Sample.tree "/a.js/outer/inner" [["1"]] = .ok Sample.selected :=
    rfl
  have hleaf : Sample.tree.find? "/a.js/outer/inner" = some Sample.inner := rfl
  obtain ⟨harness, hharness, hinside, _⟩ := Injector.stream_eq_weave hselect hleaf (by decide)
    (r := Sample.script) (by decide) rfl (by decide) ⟨"u", some []⟩ []
  exact ⟨harness, hharness, hinside (by decide) 2⟩

end PageProbe
