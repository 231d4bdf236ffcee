import Mathlib.Algebra.Field.ZMod
import Mathlib.Algebra.Polynomial.FieldDivision
import Mathlib.Tactic.LinearCombination

/-!
# Reflected shift registers

A register is shifted right, and when a 1 falls out the feedback word is xored in. Read
from the low end, with bit `i` of a `w`-bit register for `X ^ (w - 1 - i)`, one step is a
multiplication by `X` modulo `X ^ w` plus the feedback.

This module names no program.
-/

namespace Homework.ShiftRegister

open Polynomial
set_option autoImplicit false

variable {w : Nat}

def shiftStep (feedback r : BitVec w) : BitVec w :=
  if r.getLsbD 0 then (r >>> 1) ^^^ feedback else r >>> 1

def shift (feedback : BitVec w) : Nat → BitVec w → BitVec w
  | 0, r => r
  | n + 1, r => shift feedback n (shiftStep feedback r)

/-! ## Linearity -/

theorem shiftStep_xor (feedback a b : BitVec w) :
    shiftStep feedback (a ^^^ b) = shiftStep feedback a ^^^ shiftStep feedback b := by
  apply BitVec.eq_of_getLsbD_eq
  intro i _
  unfold shiftStep
  rw [BitVec.getLsbD_xor, BitVec.ushiftRight_xor_distrib]
  cases a.getLsbD 0 <;> cases b.getLsbD 0 <;>
    simp only [Bool.xor_self, Bool.false_xor, Bool.xor_false, Bool.false_eq_true, if_true,
      if_false, BitVec.getLsbD_xor]
  all_goals
    cases (a >>> 1).getLsbD i <;> cases (b >>> 1).getLsbD i <;> cases feedback.getLsbD i <;> rfl

theorem shift_xor (feedback : BitVec w) (n : Nat) (a b : BitVec w) :
    shift feedback n (a ^^^ b) = shift feedback n a ^^^ shift feedback n b := by
  induction n generalizing a b with
  | zero => rfl
  | succ n ih => rw [shift, shiftStep_xor, ih, shift, shift]

theorem shift_of_low_zero (feedback : BitVec w) {n : Nat} {r : BitVec w}
    (h : ∀ i < n, r.getLsbD i = false) : shift feedback n r = r >>> n := by
  induction n generalizing r with
  | zero => exact (BitVec.ushiftRight_zero r).symm
  | succ n ih =>
    have hstep : shiftStep feedback r = r >>> 1 := by
      rw [shiftStep, h 0 (Nat.succ_pos n), if_neg Bool.false_ne_true]
    have hlow : ∀ i < n, (r >>> 1).getLsbD i = false := by
      intro i hi
      rw [BitVec.getLsbD_ushiftRight]
      exact h (1 + i) (by omega)
    rw [shift, hstep, ih hlow, ← BitVec.shiftRight_add, Nat.add_comm]

/-- After `n` steps the low `n` bits have made their feedback and the others have moved down:
a table of the first part is all that is needed. -/
theorem shift_eq_low_xor_high (feedback : BitVec w) {n : Nat} {r low : BitVec w}
    (hlow : ∀ i < n, low.getLsbD i = r.getLsbD i) (hhigh : ∀ i, n ≤ i → low.getLsbD i = false) :
    shift feedback n r = shift feedback n low ^^^ (r >>> n) := by
  have hrest : ∀ i < n, (low ^^^ r).getLsbD i = false := by
    intro i hi
    rw [BitVec.getLsbD_xor, hlow i hi, Bool.xor_self]
  have hmoved : (low ^^^ r) >>> n = r >>> n := by
    apply BitVec.eq_of_getLsbD_eq
    intro i _
    rw [BitVec.getLsbD_ushiftRight, BitVec.getLsbD_ushiftRight, BitVec.getLsbD_xor,
      hhigh (n + i) (by omega), Bool.false_xor]
  have hsplit : r = low ^^^ (low ^^^ r) := by
    rw [← BitVec.xor_assoc, BitVec.xor_self, BitVec.zero_xor]
  rw [← hmoved, ← shift_of_low_zero feedback hrest, ← shift_xor, ← hsplit]

theorem shift_add (feedback : BitVec w) (m n : Nat) (r : BitVec w) :
    shift feedback (m + n) r = shift feedback n (shift feedback m r) := by
  induction m generalizing r with
  | zero => rw [Nat.zero_add, shift]
  | succ m ih => rw [Nat.succ_add, shift, ih, shift]

/-- What is xored into the register after `n` steps may as well be xored in before them, `n`
places higher, if it has the room. -/
theorem shift_xor_high (feedback : BitVec w) {n : Nat} (r : BitVec w) {a : BitVec w}
    (ha : (a <<< n) >>> n = a) :
    shift feedback n (r ^^^ (a <<< n)) = shift feedback n r ^^^ a := by
  have hlow : ∀ i < n, (a <<< n).getLsbD i = false := by
    intro i hi
    rw [BitVec.getLsbD_shiftLeft, decide_eq_true hi, Bool.not_true, Bool.and_false, Bool.false_and]
  rw [shift_xor, shift_of_low_zero feedback hlow, ha]

/-! ## Injectivity -/

/-- The highest bit tells whether a 1 has fallen out. -/
theorem eq_zero_of_shiftStep {feedback d : BitVec w} (hfeedback : feedback.getLsbD (w - 1) = true)
    (h : shiftStep feedback d = 0#w) : d = 0#w := by
  unfold shiftStep at h
  split at h
  · have htop := congrArg (fun r => r.getLsbD (w - 1)) h
    have hout : (d >>> 1).getLsbD (w - 1) = false := by
      rw [BitVec.getLsbD_ushiftRight]
      apply BitVec.getLsbD_of_ge
      omega
    simp only [BitVec.getLsbD_xor, hout, hfeedback, Bool.false_xor, BitVec.getLsbD_zero,
      Bool.true_eq_false] at htop
  · rename_i hlow
    apply BitVec.eq_of_getLsbD_eq
    intro i _
    cases i with
    | zero =>
      rw [BitVec.getLsbD_zero]
      exact Bool.eq_false_iff.mpr hlow
    | succ i =>
      have hbit := congrArg (fun r => r.getLsbD i) h
      simpa only [BitVec.getLsbD_ushiftRight, BitVec.getLsbD_zero, Nat.add_comm 1 i] using hbit

theorem shiftStep_injective {feedback : BitVec w} (hfeedback : feedback.getLsbD (w - 1) = true) :
    Function.Injective (shiftStep feedback) := by
  intro a b h
  have hzero : shiftStep feedback (a ^^^ b) = 0#w := by
    rw [shiftStep_xor, h, BitVec.xor_self]
  exact BitVec.xor_eq_zero_iff.mp (eq_zero_of_shiftStep hfeedback hzero)

theorem shift_injective {feedback : BitVec w} (hfeedback : feedback.getLsbD (w - 1) = true)
    (n : Nat) : Function.Injective (shift feedback n) := by
  induction n with
  | zero => exact fun a b h => h
  | succ n ih => exact ih.comp (shiftStep_injective hfeedback)

/-! ## The polynomial in the register -/

def bit (r : BitVec w) (i : Nat) : ZMod 2 := if r.getLsbD i then 1 else 0

theorem bit_xor (a b : BitVec w) (i : Nat) : bit (a ^^^ b) i = bit a i + bit b i := by
  unfold bit
  rw [BitVec.getLsbD_xor]
  cases a.getLsbD i <;> cases b.getLsbD i <;> rfl

theorem bit_shiftRight (r : BitVec w) (n i : Nat) : bit (r >>> n) i = bit r (n + i) := by
  rw [bit, BitVec.getLsbD_ushiftRight, bit]

theorem bit_of_ge (r : BitVec w) {i : Nat} (h : w ≤ i) : bit r i = 0 := by
  rw [bit, BitVec.getLsbD_of_ge r i h, if_neg Bool.false_ne_true]

noncomputable def toPoly (r : BitVec w) : (ZMod 2)[X] :=
  ∑ i ∈ Finset.range w, C (bit r i) * X ^ (w - 1 - i)

theorem toPoly_xor (a b : BitVec w) : toPoly (a ^^^ b) = toPoly a + toPoly b := by
  simp only [toPoly, bit_xor, C_add, add_mul, Finset.sum_add_distrib]

/-- A word put into the low end of a longer register. -/
theorem toPoly_setWidth (r : BitVec w) (v : Nat) :
    toPoly (r.setWidth (w + v)) = X ^ v * toPoly r := by
  have hbit : ∀ i, bit (r.setWidth (w + v)) i = bit r i := by
    intro i
    rw [bit, BitVec.getLsbD_setWidth, bit]
    by_cases hi : i < w + v
    · rw [decide_eq_true hi, Bool.true_and]
    · rw [decide_eq_false hi, Bool.false_and, BitVec.getLsbD_of_ge r i (by omega)]
  have hhigh : ∀ i ∈ Finset.range v, C (bit r (w + i)) * X ^ (w + v - 1 - (w + i)) = 0 := by
    intro i _
    rw [bit_of_ge r (Nat.le_add_right w i), C_0, zero_mul]
  have hlow : ∀ i ∈ Finset.range w, C (bit r i) * X ^ (w + v - 1 - i) =
      X ^ v * (C (bit r i) * X ^ (w - 1 - i)) := by
    intro i hi
    have hi := Finset.mem_range.mp hi
    have hexp : w + v - 1 - i = v + (w - 1 - i) := by omega
    rw [hexp, pow_add]
    ring
  simp only [toPoly, hbit]
  rw [Finset.sum_range_add, Finset.sum_eq_zero hhigh, add_zero, Finset.sum_congr rfl hlow,
    Finset.mul_sum]

theorem degree_toPoly_lt (r : BitVec w) : (toPoly r).degree < w := by
  refine (degree_sum_le _ _).trans_lt ((Finset.sup_lt_iff (WithBot.bot_lt_coe w)).mpr ?_)
  intro i hi
  have hi := Finset.mem_range.mp hi
  refine (degree_C_mul_X_pow_le _ _).trans_lt ?_
  exact Nat.cast_lt.mpr (by omega)

noncomputable def generator (feedback : BitVec w) : (ZMod 2)[X] := X ^ w + toPoly feedback

theorem generator_monic (feedback : BitVec w) : (generator feedback).Monic :=
  monic_X_pow_add (degree_toPoly_lt feedback)

theorem degree_generator (feedback : BitVec w) : (generator feedback).degree = w := by
  have hlt : (toPoly feedback).degree < (X ^ w : (ZMod 2)[X]).degree := by
    rw [degree_X_pow]
    exact degree_toPoly_lt feedback
  rw [generator, degree_add_eq_left_of_degree_lt hlt, degree_X_pow]

theorem X_mul_toPoly (r : BitVec w) :
    X * toPoly r = toPoly (r >>> 1) + C (bit r 0) * X ^ w := by
  cases w with
  | zero => simp [toPoly, bit]
  | succ n =>
    have hlast : bit (r >>> 1) n = 0 := by
      rw [bit_shiftRight]
      exact bit_of_ge r (by omega)
    have hterm : ∀ i ∈ Finset.range n, X * (C (bit r (i + 1)) * X ^ (n + 1 - 1 - (i + 1))) =
        C (bit (r >>> 1) i) * X ^ (n + 1 - 1 - i) := by
      intro i hi
      have hi := Finset.mem_range.mp hi
      have hexp : n + 1 - 1 - i = (n + 1 - 1 - (i + 1)) + 1 := by omega
      rw [bit_shiftRight, Nat.add_comm 1 i, hexp, pow_succ]
      ring
    rw [toPoly, Finset.mul_sum, Finset.sum_range_succ', Finset.sum_congr rfl hterm, toPoly,
      Finset.sum_range_succ, hlast]
    simp only [Nat.add_sub_cancel, Nat.sub_zero, pow_succ, C_0, zero_mul, add_zero]
    ring

theorem X_mul_toPoly_eq_shiftStep (feedback r : BitVec w) :
    X * toPoly r = toPoly (shiftStep feedback r) + C (bit r 0) * generator feedback := by
  rw [X_mul_toPoly, shiftStep, bit, generator]
  split
  · rw [toPoly_xor, C_1, one_mul, one_mul]
    have hzero := CharTwo.add_self_eq_zero (toPoly feedback)
    linear_combination -hzero
  · rw [C_0, zero_mul, zero_mul]

theorem generator_dvd_shift (feedback r : BitVec w) (n : Nat) :
    generator feedback ∣ X ^ n * toPoly r - toPoly (shift feedback n r) := by
  induction n generalizing r with
  | zero => simp [shift]
  | succ n ih =>
    have hstep := X_mul_toPoly_eq_shiftStep feedback r
    have hrest := ih (shiftStep feedback r)
    have hsplit : X ^ (n + 1) * toPoly r - toPoly (shift feedback (n + 1) r) =
        X ^ n * toPoly (shiftStep feedback r) -
          toPoly (shift feedback n (shiftStep feedback r)) +
        X ^ n * C (bit r 0) * generator feedback := by
      rw [shift]
      linear_combination X ^ n * hstep
    rw [hsplit]
    exact dvd_add hrest (Dvd.intro_left _ rfl)

theorem toPoly_eq_mod {feedback r : BitVec w} {p : (ZMod 2)[X]}
    (h : generator feedback ∣ p - toPoly r) : toPoly r = p %ₘ generator feedback := by
  rw [modByMonic_eq_of_dvd_sub (generator_monic feedback) h]
  refine ((modByMonic_eq_self_iff (generator_monic feedback)).mpr ?_).symm
  rw [degree_generator]
  exact degree_toPoly_lt r

/-! ## What the generator divides -/

theorem coeff_toPoly (r : BitVec w) (k : Nat) :
    (toPoly r).coeff k = if k < w then bit r (w - 1 - k) else 0 := by
  have hterm : ∀ i ∈ Finset.range w, (C (bit r i) * X ^ (w - 1 - i)).coeff k =
      if i = w - 1 - k then (if k < w then bit r i else 0) else 0 := by
    intro i hi
    have hi := Finset.mem_range.mp hi
    rw [coeff_C_mul_X_pow]
    by_cases hk : k < w
    · rw [if_pos hk]
      congr 1
      exact propext ⟨fun h => by omega, fun h => by omega⟩
    · rw [if_neg hk, if_neg (by omega)]
      split <;> rfl
  rw [toPoly, finsetSum_coeff, Finset.sum_congr rfl hterm]
  split
  · rename_i hk
    rw [Finset.sum_ite_eq', if_pos (Finset.mem_range.mpr (by omega))]
  · exact Finset.sum_eq_zero fun i _ => by split <;> rfl

theorem toPoly_injective : Function.Injective (toPoly (w := w)) := by
  intro a b h
  apply BitVec.eq_of_getLsbD_eq
  intro i hi
  have hcoeff := congrArg (fun p => p.coeff (w - 1 - i)) h
  have hindex : w - 1 - (w - 1 - i) = i := by omega
  simp only [coeff_toPoly, if_pos (show w - 1 - i < w by omega), hindex] at hcoeff
  unfold bit at hcoeff
  cases ha : a.getLsbD i <;> cases hb : b.getLsbD i <;> simp_all

theorem isCoprime_generator {feedback : BitVec w} (hfeedback : feedback.getLsbD (w - 1) = true)
    (n : Nat) : IsCoprime (generator feedback) (X ^ n) := by
  have hwidth : 0 < w := by
    by_contra hzero
    rw [BitVec.getLsbD_of_ge feedback _ (by omega)] at hfeedback
    cases hfeedback
  have hone : (generator feedback).coeff 0 = 1 := by
    rw [generator, coeff_add, coeff_X_pow, if_neg (by omega), coeff_toPoly, if_pos hwidth, bit,
      Nat.sub_zero, hfeedback, if_pos rfl, zero_add]
  obtain ⟨q, hq⟩ : X ∣ generator feedback - 1 := by
    rw [X_dvd_iff, coeff_sub, hone, coeff_one_zero, sub_self]
  have hcoprime : IsCoprime (generator feedback) X := ⟨1, -q, by linear_combination hq⟩
  exact hcoprime.pow_right

/-- A multiple of the generator has no run of `w` coefficients outside of which it is zero. -/
theorem eq_zero_of_generator_dvd {feedback : BitVec w}
    (hfeedback : feedback.getLsbD (w - 1) = true) {n : Nat} {q : (ZMod 2)[X]} (hq : q.degree < w)
    (h : generator feedback ∣ X ^ n * q) : q = 0 := by
  by_contra hne
  have hdvd := (isCoprime_generator hfeedback n).dvd_of_dvd_mul_left h
  have hle := degree_le_of_dvd hdvd hne
  rw [degree_generator] at hle
  exact absurd hq (not_lt.mpr hle)

end Homework.ShiftRegister
