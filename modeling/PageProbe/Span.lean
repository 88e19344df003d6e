/-!
Every place the library names is a span of the UTF-8 form of a script, so that the same numbers can
be used to splice bytes into the script on its way to a page.
-/

namespace PageProbe

/-- The bytes from `start` up to, and without, `stop`. -/
structure Span where
  start : Nat
  stop : Nat
deriving DecidableEq, Repr, Inhabited

namespace Span

/-- A span whose end lies before its start holds no byte. -/
def length (s : Span) : Nat := s.stop - s.start

def isEmpty (s : Span) : Bool := s.length == 0

/-- Every byte of `t` is in `s`, and so are the ends of an empty `t`. -/
def contains (s t : Span) : Bool := decide (s.start ≤ t.start) && decide (t.stop ≤ s.stop)

def containsOffset (s : Span) (offset : Nat) : Bool :=
  decide (s.start ≤ offset) && decide (offset < s.stop)

def overlaps (s t : Span) : Bool := decide (s.start < t.stop) && decide (t.start < s.stop)

theorem contains_iff (s t : Span) : s.contains t = true ↔ s.start ≤ t.start ∧ t.stop ≤ s.stop := by
  simp [contains]

theorem overlaps_iff (s t : Span) : s.overlaps t = true ↔ s.start < t.stop ∧ t.start < s.stop := by
  simp [overlaps]

theorem overlaps_eq_false_iff (s t : Span) :
    s.overlaps t = false ↔ t.stop ≤ s.start ∨ s.stop ≤ t.start := by
  rw [← Bool.not_eq_true, overlaps_iff]
  omega

theorem overlaps_comm (s t : Span) : s.overlaps t = t.overlaps s := Bool.and_comm _ _

theorem contains_refl (s : Span) : s.contains s = true := by
  simp [contains]

theorem contains_trans {s t u : Span} (hst : s.contains t = true) (htu : t.contains u = true) :
    s.contains u = true := by
  rw [contains_iff] at hst htu ⊢
  omega

/-- What lies inside of spans that do not overlap does not overlap either. -/
theorem overlaps_of_contains {s t s' t' : Span} (h : s.overlaps t = false)
    (hs : s.contains s' = true) (ht : t.contains t' = true) : s'.overlaps t' = false := by
  rw [contains_iff] at hs ht
  rw [overlaps_eq_false_iff] at h ⊢
  omega

end Span
end PageProbe
