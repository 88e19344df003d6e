import PageProbe.Number.Notation
import Mathlib.Data.Nat.Digits.Defs

namespace PageProbe.Number

theorem natural_toList (n : Nat) : (natural n).toList = Nat.toDigits 10 n := String.toList_ofList

theorem isDigit_of_mem_toDigits {n : Nat} {c : Char} (h : c ∈ Nat.toDigits 10 n) : c.isDigit = true :=
  Nat.isDigit_of_mem_toDigits (by decide) (by decide) h

/-- Only zero starts with the digit zero. -/
theorem toDigits_head_ne {n : Nat} (h : 0 < n) : (Nat.toDigits 10 n).head? ≠ some '0' := by
  induction n using Nat.strongRecOn with
  | ind n ih =>
    rw [Nat.toDigits_eq_if (by decide)]
    split
    · simp only [List.head?_cons, ne_eq, Option.some.injEq, Nat.digitChar_eq_zero]
      omega
    · rw [List.head?_append, List.head?_eq_some_head Nat.toDigits_ne_nil, Option.some_or,
        ← List.head?_eq_some_head]
      exact ih (n / 10) (by omega) (by omega)

theorem toDigits_eq_cons (n : Nat) :
    ∃ d ds, Nat.toDigits 10 n = d :: ds ∧ d.isDigit = true ∧ (d = '0' → ds = []) := by
  obtain ⟨d, ds, hds⟩ := List.exists_cons_of_ne_nil (Nat.toDigits_ne_nil (n := n) (b := 10))
  refine ⟨d, ds, hds, isDigit_of_mem_toDigits (hds ▸ List.mem_cons_self), fun hzero => ?_⟩
  have hn : n = 0 := by
    by_contra hpos
    exact toDigits_head_ne (Nat.pos_of_ne_zero hpos) (by simp [hds, hzero])
  simpa [hn] using congrArg List.tail hds.symm

/-- Digits add up to the number that they are the digits of. -/
theorem foldl_toDigits (n : Nat) :
    (Nat.toDigits 10 n).foldl (fun n c => n * 10 + (c.toNat - '0'.toNat)) 0 = n := by
  have hdigits : Nat.ofDigitChars 10 (Nat.toDigits 10 n) 0 = n := Nat.ofDigitChars_ten_toDigits
  simpa only [Nat.ofDigitChars_eq_foldl, Nat.mul_comm 10] using hdigits

end PageProbe.Number
