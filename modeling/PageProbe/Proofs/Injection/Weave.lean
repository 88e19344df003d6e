import PageProbe.Injection.Injector

/-!
Splicing works on a piece from its back to its front. What comes of it is what a single pass from
left to right writes down, which puts the texts of every point at that point.
-/

namespace PageProbe

open Text (Bytes)

namespace Insertion

/-- The bytes of the texts for one point, in the order of the list. -/
def textsAt (xs : List Insertion) (point : Nat) : Bytes :=
  (xs.filter fun x => x.point = point).flatMap fun x => Text.encode x.text

/-- One pass from left to right over what is left of a body from an offset on. The texts for a point
    stand right before the byte there, and right behind it when that byte is a semicolon. The texts
    for the end come last, and those for other points are left out. -/
def weaveFrom (xs : List Insertion) (offset : Nat) : Bytes → Bytes
  | [] => textsAt xs offset
  | b :: bs =>
    (if b = 0x3B then b :: textsAt xs offset else textsAt xs offset ++ [b]) ++
      weaveFrom xs (offset + 1) bs

/-- One pass over a whole body. -/
def weave (xs : List Insertion) (body : Bytes) : Bytes := weaveFrom xs 0 body

/-- The text does not start with a semicolon, so that it is never taken for the end of the statement
    in front of an earlier text. -/
def StartsPlain (x : Insertion) : Prop := (Text.encode x.text).head? ≠ some 0x3B

@[simp] theorem textsAt_nil (point : Nat) : textsAt [] point = [] := rfl

theorem textsAt_cons (x : Insertion) (xs : List Insertion) (point : Nat) :
    textsAt (x :: xs) point =
      (if x.point = point then Text.encode x.text else []) ++ textsAt xs point := by
  by_cases h : x.point = point <;> simp [textsAt, h]

theorem textsAt_eq_nil {xs : List Insertion} {point : Nat} (h : ∀ x ∈ xs, x.point ≠ point) :
    textsAt xs point = [] := by
  have hnone : xs.filter (fun x => x.point = point) = [] := by
    simpa [List.filter_eq_nil_iff] using h
  rw [textsAt, hnone]
  rfl

theorem textsAt_filter (xs : List Insertion) (p : Insertion → Bool) {point : Nat}
    (h : ∀ x ∈ xs, x.point = point → p x = true) :
    textsAt (xs.filter p) point = textsAt xs point := by
  have hsame : (xs.filter p).filter (fun x => x.point = point) =
      xs.filter (fun x => x.point = point) := by
    rw [List.filter_filter]
    apply List.filter_congr
    intro x hx
    by_cases heq : x.point = point
    · simp [heq, h x hx heq]
    · simp [heq]
  rw [textsAt, textsAt, hsame]

/-- Texts that do not start with a semicolon do not put one in front of what follows them. -/
theorem head?_textsAt_append {xs : List Insertion} (point : Nat) {rest : Bytes}
    (hplain : ∀ x ∈ xs, x.StartsPlain) (hrest : rest.head? ≠ some 0x3B) :
    (textsAt xs point ++ rest).head? ≠ some 0x3B := by
  induction xs with
  | nil => simpa using hrest
  | cons x xs ih =>
    have ih := ih fun y hy => hplain y (List.mem_cons_of_mem x hy)
    rw [textsAt_cons, List.append_assoc]
    by_cases heq : x.point = point
    · rw [if_pos heq]
      cases htext : Text.encode x.text with
      | nil => simpa using ih
      | cons b bs =>
        have hx := hplain x List.mem_cons_self
        rw [StartsPlain, htext] at hx
        simpa using hx
    · rw [if_neg heq]
      simpa using ih

/-- Only the texts for the points of a body, its end included, matter to the pass over it. -/
theorem weaveFrom_congr {xs ys : List Insertion} {offset : Nat} {body : Bytes}
    (h : ∀ point, offset ≤ point → point ≤ offset + body.length →
      textsAt xs point = textsAt ys point) :
    weaveFrom xs offset body = weaveFrom ys offset body := by
  induction body generalizing offset with
  | nil => exact h offset (Nat.le_refl _) (by simp)
  | cons b bs ih =>
    have hrest : weaveFrom xs (offset + 1) bs = weaveFrom ys (offset + 1) bs := by
      apply ih
      intro point hlow hhigh
      exact h point (by omega) (by simp only [List.length_cons]; omega)
    rw [weaveFrom, weaveFrom, h offset (Nat.le_refl _) (by omega), hrest]

theorem weaveFrom_filter (xs : List Insertion) (p : Insertion → Bool) (offset : Nat) (body : Bytes)
    (h : ∀ x ∈ xs, offset ≤ x.point → x.point ≤ offset + body.length → p x = true) :
    weaveFrom (xs.filter p) offset body = weaveFrom xs offset body := by
  apply weaveFrom_congr
  intro point hlow hhigh
  apply textsAt_filter
  intro x hx heq
  exact h x hx (by omega) (by omega)

@[simp] theorem weaveFrom_nil (offset : Nat) (body : Bytes) : weaveFrom [] offset body = body := by
  induction body generalizing offset with
  | nil => rfl
  | cons b bs ih =>
    rw [weaveFrom, ih]
    split <;> simp

/-- A pass over two parts. The texts for the place between them belong to the second part. -/
theorem weaveFrom_append (xs : List Insertion) (offset : Nat) (front back : Bytes) :
    weaveFrom xs offset (front ++ back) =
      weaveFrom (xs.filter fun x => x.point < offset + front.length) offset front ++
        weaveFrom xs (offset + front.length) back := by
  induction front generalizing offset with
  | nil =>
    have hnone : textsAt (xs.filter fun x => x.point < offset + ([] : Bytes).length) offset = [] := by
      apply textsAt_eq_nil
      intro x hx heq
      simp [heq] at hx
    rw [weaveFrom.eq_1, hnone]
    rfl
  | cons b bs ih =>
    have hsum : offset + 1 + bs.length = offset + (b :: bs).length := by
      simp only [List.length_cons]
      omega
    have hhere : textsAt (xs.filter fun x => x.point < offset + (b :: bs).length) offset =
        textsAt xs offset := by
      apply textsAt_filter
      intro x _ heq
      simp [heq]
    rw [List.cons_append, weaveFrom, weaveFrom, ih, hsum, hhere, List.append_assoc]

/-- A splice behind the first byte of a piece leaves that byte alone. -/
theorem splice_cons (b : UInt8) (bs : Bytes) {offset point : Nat} (text : String)
    (h : offset < point) :
    splice (b :: bs) offset point text = b :: splice bs (offset + 1) point text := by
  obtain ⟨n, hn⟩ : ∃ n, point - offset = n + 1 := ⟨point - offset - 1, by omega⟩
  have hrest : point - (offset + 1) = n := by omega
  have hplace : min (n + 1) (b :: bs).length = min n bs.length + 1 := by
    simp only [List.length_cons]
    omega
  simp only [splice, hn, hrest, hplace, List.getElem?_cons_succ]
  split <;> rfl

/-- A splice in front of a piece goes behind a semicolon there. -/
theorem splice_front (data : Bytes) (offset : Nat) (text : String) :
    splice data offset offset text =
      match data with
      | [] => Text.encode text
      | b :: bs => if b = 0x3B then b :: (Text.encode text ++ bs) else Text.encode text ++ b :: bs := by
  cases data with
  | nil => simp [splice]
  | cons b bs =>
    by_cases hb : b = 0x3B
    · simp [splice, hb]
    · simp [splice, hb]

theorem splice_front_of_plain {data : Bytes} (offset : Nat) (text : String)
    (hplain : data.head? ≠ some 0x3B) : splice data offset offset text = Text.encode text ++ data := by
  rw [splice_front]
  cases data with
  | nil => simp
  | cons b bs =>
    have hb : b ≠ 0x3B := by simpa using hplain
    simp [hb]

/-- Splicing adds one text to a pass that already holds the texts for its point and for later ones.
    Only those texts must not start with a semicolon, the new one may. -/
theorem splice_weaveFrom {x : Insertion} {xs : List Insertion} {offset : Nat} {data : Bytes}
    (hplain : ∀ y ∈ xs, y.StartsPlain) (hlater : ∀ y ∈ xs, x.point ≤ y.point)
    (hlow : offset ≤ x.point) (hhigh : x.point ≤ offset + data.length) :
    splice (weaveFrom xs offset data) offset x.point x.text = weaveFrom (x :: xs) offset data := by
  induction data generalizing offset with
  | nil =>
    have hpoint : x.point = offset := by
      simp only [List.length_nil] at hhigh
      omega
    have hhead : (textsAt xs offset).head? ≠ some 0x3B := by
      simpa using head?_textsAt_append offset hplain (show ([] : Bytes).head? ≠ some 0x3B by simp)
    rw [weaveFrom, weaveFrom, textsAt_cons, if_pos hpoint, hpoint, splice_front_of_plain _ _ hhead]
  | cons b bs ih =>
    rcases Nat.eq_or_lt_of_le hlow with hpoint | hbehind
    · have hrest : weaveFrom (x :: xs) (offset + 1) bs = weaveFrom xs (offset + 1) bs := by
        apply weaveFrom_congr
        intro point hnext _
        rw [textsAt_cons, if_neg (by omega), List.nil_append]
      rw [weaveFrom, weaveFrom, textsAt_cons, if_pos hpoint.symm, ← hpoint, hrest]
      by_cases hb : b = 0x3B
      · simp [splice_front, hb]
      · have hbyte : ([b] ++ weaveFrom xs (offset + 1) bs).head? ≠ some 0x3B := by simpa using hb
        have hhead := head?_textsAt_append offset hplain hbyte
        rw [if_neg hb, if_neg hb, List.append_assoc, List.append_assoc, List.append_assoc,
          splice_front_of_plain _ _ hhead]
    · have hnone : textsAt xs offset = [] := by
        apply textsAt_eq_nil
        intro y hy
        have hle := hlater y hy
        omega
      have hnoneCons : textsAt (x :: xs) offset = [] := by
        rw [textsAt_cons, if_neg (by omega), hnone, List.append_nil]
      have hsplice : splice (weaveFrom xs (offset + 1) bs) (offset + 1) x.point x.text =
          weaveFrom (x :: xs) (offset + 1) bs := by
        apply ih (by omega)
        simp only [List.length_cons] at hhigh
        omega
      rw [weaveFrom, weaveFrom, hnone, hnoneCons]
      have hhere : (if b = 0x3B then b :: [] else [] ++ [b]) = [b] := by split <;> rfl
      rw [hhere, List.singleton_append, List.singleton_append, splice_cons b _ _ hbehind, hsplice]

/-- Insertions that come one after another from the back make up one pass, whose order is the other
    way round. -/
theorem foldl_splice_eq_weaveFrom {xs : List Insertion} (done : List Insertion) (offset : Nat)
    (data : Bytes)
    (hsorted : xs.Pairwise fun y x => x.point ≤ y.point)
    (hdone : ∀ x ∈ xs, ∀ y ∈ done, x.point ≤ y.point)
    (hplain : ∀ x ∈ xs ++ done, x.StartsPlain)
    (hinside : ∀ x ∈ xs, offset ≤ x.point ∧ x.point ≤ offset + data.length) :
    xs.foldl (fun data i => splice data offset i.point i.text) (weaveFrom done offset data) =
      weaveFrom (xs.reverse ++ done) offset data := by
  induction xs generalizing done with
  | nil => rfl
  | cons x xs ih =>
    obtain ⟨hfirst, hsorted⟩ := List.pairwise_cons.mp hsorted
    obtain ⟨hlow, hhigh⟩ := hinside x List.mem_cons_self
    have hplainDone (y : Insertion) (hy : y ∈ done) := hplain y (List.mem_append_right _ hy)
    have hstep := splice_weaveFrom hplainDone (hdone x List.mem_cons_self) hlow hhigh
    rw [List.foldl_cons, hstep, ih (x :: done) hsorted]
    · simp
    · intro y hy z hz
      rcases List.mem_cons.mp hz with rfl | hz
      · exact hfirst y hy
      · exact hdone y (List.mem_cons_of_mem x hy) z hz
    · intro y hy
      apply hplain
      rcases List.mem_append.mp hy with hy | hy
      · exact List.mem_append_left _ (List.mem_cons_of_mem x hy)
      · rcases List.mem_cons.mp hy with rfl | hy
        · exact List.mem_append_left _ List.mem_cons_self
        · exact List.mem_append_right _ hy
    · intro y hy
      exact hinside y (List.mem_cons_of_mem x hy)

theorem mem_place {x y : Insertion} {ys : List Insertion} : y ∈ place x ys ↔ y = x ∨ y ∈ ys := by
  induction ys with
  | nil => simp [place]
  | cons z zs ih =>
    rw [place]
    split
    · rw [List.mem_cons, ih, List.mem_cons, or_left_comm]
    · rw [List.mem_cons]

theorem place_sorted {x : Insertion} {ys : List Insertion}
    (h : ys.Pairwise fun y x => x.point ≤ y.point) :
    (place x ys).Pairwise fun y x => x.point ≤ y.point := by
  induction ys with
  | nil => simp [place]
  | cons y ys ih =>
    obtain ⟨hfirst, hrest⟩ := List.pairwise_cons.mp h
    rw [place]
    split
    · rename_i hle
      refine List.pairwise_cons.mpr ⟨?_, ih hrest⟩
      intro z hz
      rcases mem_place.mp hz with rfl | hz
      · exact hle
      · exact hfirst z hz
    · rename_i hnot
      refine List.pairwise_cons.mpr ⟨?_, h⟩
      intro z hz
      rcases List.mem_cons.mp hz with rfl | hz
      · omega
      · have hle := hfirst z hz
        omega

theorem filter_place {x : Insertion} {ys : List Insertion} (point : Nat)
    (h : ys.Pairwise fun y x => x.point ≤ y.point) :
    (place x ys).filter (fun y => y.point = point) =
      ys.filter (fun y => y.point = point) ++ [x].filter (fun y => y.point = point) := by
  induction ys with
  | nil => simp [place]
  | cons y ys ih =>
    obtain ⟨hfirst, hrest⟩ := List.pairwise_cons.mp h
    rw [place]
    split
    · by_cases heq : y.point = point
      · rw [List.filter_cons_of_pos (by simpa using heq),
          List.filter_cons_of_pos (by simpa using heq), ih hrest, List.cons_append]
      · rw [List.filter_cons_of_neg (by simpa using heq),
          List.filter_cons_of_neg (by simpa using heq), ih hrest]
    · rename_i hnot
      by_cases heq : x.point = point
      · have hnone : (y :: ys).filter (fun y => y.point = point) = [] := by
          rw [List.filter_eq_nil_iff]
          intro z hz
          rcases List.mem_cons.mp hz with rfl | hz
          · simp only [decide_eq_true_eq]
            omega
          · have hle := hfirst z hz
            simp only [decide_eq_true_eq]
            omega
        rw [List.filter_cons, hnone]
        simp [heq]
      · simp [heq, List.filter_cons]

theorem backToFront_sorted (xs : List Insertion) :
    (backToFront xs).Pairwise fun y x => x.point ≤ y.point := by
  induction xs with
  | nil => exact .nil
  | cons x xs ih => exact place_sorted ih

theorem mem_backToFront {x : Insertion} {xs : List Insertion} : x ∈ backToFront xs ↔ x ∈ xs := by
  induction xs with
  | nil => rfl
  | cons y ys ih => rw [backToFront, mem_place, ih, List.mem_cons]

/-- Sorting from the back keeps the insertions at one point, in the order opposite to theirs. -/
theorem textsAt_backToFront_reverse (xs : List Insertion) (point : Nat) :
    textsAt (backToFront xs).reverse point = textsAt xs point := by
  have hfilter : ((backToFront xs).filter fun y => y.point = point) =
      (xs.filter fun y => y.point = point).reverse := by
    induction xs with
    | nil => rfl
    | cons x xs ih =>
      rw [backToFront, filter_place point (backToFront_sorted xs), ih]
      by_cases heq : x.point = point <;> simp [heq]
  rw [textsAt, List.filter_reverse, hfilter, List.reverse_reverse, textsAt]

/-- Making insertions that lie within a piece amounts to one pass over it. Their order in the list only
    matters at a shared point. -/
theorem applyAll_eq_weaveFrom {xs : List Insertion} {offset : Nat} {data : Bytes}
    (hplain : ∀ x ∈ xs, x.StartsPlain)
    (hinside : ∀ x ∈ xs, offset ≤ x.point ∧ x.point ≤ offset + data.length) :
    applyAll data offset xs = weaveFrom xs offset data := by
  have hfold := foldl_splice_eq_weaveFrom [] offset data (backToFront_sorted xs) (by simp)
    (by simpa [mem_backToFront] using hplain)
    (fun x hx => hinside x (mem_backToFront.mp hx))
  rw [weaveFrom_nil, List.append_nil] at hfold
  rw [applyAll, hfold]
  apply weaveFrom_congr
  intro point _ _
  exact textsAt_backToFront_reverse xs point

end Insertion
end PageProbe
