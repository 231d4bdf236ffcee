import Mathlib.Algebra.BigOperators.Ring.Finset
import Mathlib.Algebra.Order.BigOperators.Group.List
import Mathlib.Algebra.Order.Field.Basic
import Mathlib.Algebra.Order.Ring.Abs
import Mathlib.Data.Int.Cast.Lemmas
import Mathlib.Tactic.FieldSimp
import Mathlib.Tactic.Linarith
import Mathlib.Tactic.Ring

/-!
# The variance of a list

The mean and the population variance over any field, and the mean of the squared distances
from any other point. A quotient of integers that is truncated is less than 1 off.

This module names no program.
-/

namespace Homework

set_option autoImplicit false

universe u

section Field

variable {K : Type u} [Field K]

def mean (xs : List K) : K := xs.sum / xs.length

def variance (xs : List K) : K := (xs.map fun x => (x - mean xs) ^ 2).sum / xs.length

theorem sum_sq_sub (xs : List K) (a : K) : (xs.map fun x => (x - a) ^ 2).sum =
    (xs.map fun x => x ^ 2).sum - 2 * a * xs.sum + xs.length * a ^ 2 := by
  induction xs with
  | nil => simp
  | cons x xs ih =>
    simp only [List.map_cons, List.sum_cons, List.length_cons, ih, Nat.cast_succ]
    ring

/-- The variance is taken around the mean. Around another point its distance from the mean is
added, squared. -/
theorem sum_sq_sub_div [CharZero K] {xs : List K} (hne : xs ≠ []) (a : K) :
    (xs.map fun x => (x - a) ^ 2).sum / xs.length = variance xs + (mean xs - a) ^ 2 := by
  have hlen : (xs.length : K) ≠ 0 := by
    rw [Nat.cast_ne_zero]
    exact fun h => hne (List.eq_nil_of_length_eq_zero h)
  rw [variance, sum_sq_sub xs a, sum_sq_sub xs (mean xs), mean]
  field_simp
  ring

end Field

section Ordered

variable {K : Type u} [Field K] [LinearOrder K] [IsStrictOrderedRing K]

theorem abs_div_sub_tdiv_lt_one (a : Int) {n : Int} (hn : 0 < n) :
    |(a : K) / n - (a.tdiv n : Int)| < 1 := by
  have hn' : (0 : K) < n := Int.cast_pos.mpr hn
  have hparts : (a : K) = n * (a.tdiv n : Int) + (a.tmod n : Int) := by
    rw [← Int.cast_mul, ← Int.cast_add, Int.mul_tdiv_add_tmod]
  have hdiff : (a : K) / n - (a.tdiv n : Int) = (a.tmod n : Int) / n := by
    rw [hparts]
    field_simp
    ring
  have hmod : |a.tmod n| < n := by
    rw [abs_lt]
    have hlo := Int.lt_tmod_of_pos a hn
    have hhi := Int.tmod_lt_of_pos a hn
    omega
  rw [hdiff, abs_div, abs_of_pos hn', div_lt_one hn', ← Int.cast_abs, Int.cast_lt]
  exact hmod

theorem tdiv_le_div {a : Int} (ha : 0 ≤ a) {n : Int} (hn : 0 < n) :
    ((a.tdiv n : Int) : K) ≤ (a : K) / n := by
  have hn' : (0 : K) < n := Int.cast_pos.mpr hn
  rw [le_div_iff₀ hn', ← Int.cast_mul, Int.cast_le, Int.tdiv_eq_ediv_of_nonneg ha]
  exact Int.ediv_mul_le a hn.ne'

/-- Rounded towards 0 are the point and, around it, the quotient; together they are less than 1
off, since one makes the result larger and the other smaller. -/
theorem abs_tdiv_sub_variance_lt_one {xs : List Int} (hne : xs ≠ []) {a : Int}
    (ha : a = xs.sum.tdiv xs.length) :
    |(((xs.map fun x => (x - a) ^ 2).sum.tdiv xs.length : Int) : K) -
      variance (xs.map (Int.cast : Int → K))| < 1 := by
  have hlen : (0 : Int) < xs.length := Int.natCast_pos.mpr (List.length_pos_of_ne_nil hne)
  have hnonneg : 0 ≤ (xs.map fun x => (x - a) ^ 2).sum := by
    apply List.sum_nonneg
    intro y hy
    obtain ⟨x, -, rfl⟩ := List.mem_map.mp hy
    exact sq_nonneg _
  have hne' : xs.map (Int.cast : Int → K) ≠ [] := by
    rwa [Ne, List.map_eq_nil_iff]
  have hexact := sum_sq_sub_div hne' (a : K)
  have hsum : (((xs.map fun x => (x - a) ^ 2).sum : Int) : K) =
      ((xs.map (Int.cast : Int → K)).map fun x => (x - (a : K)) ^ 2).sum := by
    rw [Int.cast_list_sum, List.map_map, List.map_map]
    congr 2
    funext x
    simp
  have hmean : mean (xs.map (Int.cast : Int → K)) = (xs.sum : K) / (xs.length : Int) := by
    rw [mean, Int.cast_list_sum, List.length_map, Int.cast_natCast]
  have hpoint := abs_div_sub_tdiv_lt_one (K := K) xs.sum hlen
  have hquot := abs_div_sub_tdiv_lt_one (K := K) (xs.map fun x => (x - a) ^ 2).sum hlen
  have hbelow := tdiv_le_div (K := K) hnonneg hlen
  rw [List.length_map, ← hsum, hmean, ← Int.cast_natCast] at hexact
  rw [← ha] at hpoint
  have hsq := sq_nonneg ((xs.sum : K) / (xs.length : Int) - a)
  have hsq' := (sq_lt_one_iff_abs_lt_one _).mpr hpoint
  rw [abs_lt] at hquot ⊢
  constructor <;> linarith

end Ordered

end Homework
