import Homework.Crc32.Table
import Homework.Shared.ShiftRegister

/-!
# What the table computes

Each entry of the table is its index shifted eight times through the reflected CRC-32
register, so the byte loop is the bit-serial register, and the register is the remainder of
the message modulo the CRC-32 generator.
-/

namespace Homework.Crc32

open Polynomial ShiftRegister
set_option autoImplicit false

def feedback : BitVec 32 := 0xEDB88320

def crc32BitSerial (buf : List (BitVec 8)) : BitVec 32 :=
  ~~~ buf.foldl (fun crc p => shift feedback 8 (crc ^^^ p.setWidth 32)) 0xFFFFFFFF

theorem crc32Tab_entry :
    ∀ i : Fin crc32Tab.length, crc32Tab.get i = shift feedback 8 (BitVec.ofNat 32 i) := by
  decide +kernel

theorem getLsbD_lowByte (r : BitVec 32) (i : Nat) :
    (r &&& 0xFF).getLsbD i = (decide (i < 8) && r.getLsbD i) := by
  have hmask : (0xFF : BitVec 32) = (BitVec.allOnes 8).setWidth 32 := by decide
  rw [BitVec.getLsbD_and, hmask, BitVec.getLsbD_setWidth, BitVec.getLsbD_allOnes]
  by_cases hi : i < 8
  · have hlt : i < 32 := by omega
    simp [hi, hlt]
  · simp [hi]

theorem crc32Step_eq_shift (crc : BitVec 32) (p : BitVec 8) :
    crc32Step crc p = shift feedback 8 (crc ^^^ p.setWidth 32) := by
  have hsplit : shift feedback 8 (crc ^^^ p.setWidth 32) =
      shift feedback 8 ((crc ^^^ p.setWidth 32) &&& 0xFF) ^^^ ((crc ^^^ p.setWidth 32) >>> 8) := by
    apply shift_eq_low_xor_high
    · intro i hi
      rw [getLsbD_lowByte, decide_eq_true hi, Bool.true_and]
    · intro i hi
      rw [getLsbD_lowByte, decide_eq_false (by omega), Bool.false_and]
  have hhigh : (crc ^^^ p.setWidth 32) >>> 8 = crc >>> 8 := by
    apply BitVec.eq_of_getLsbD_eq
    intro i _
    rw [BitVec.getLsbD_ushiftRight, BitVec.getLsbD_ushiftRight, BitVec.getLsbD_xor,
      BitVec.getLsbD_setWidth, BitVec.getLsbD_of_ge p (8 + i) (by omega), Bool.and_false,
      Bool.xor_false]
  rw [hsplit, hhigh, crc32Step, crc32Tab_entry, BitVec.ofNat_toNat, BitVec.setWidth_eq]

theorem crc32_eq_bitSerial (buf : List (BitVec 8)) : crc32 buf = crc32BitSerial buf := by
  have hstep : crc32Step = fun crc p => shift feedback 8 (crc ^^^ p.setWidth 32) := by
    funext crc p
    exact crc32Step_eq_shift crc p
  rw [crc32, hstep, crc32BitSerial]
  exact (BitVec.xor_allOnes).trans rfl

/-! ## The remainder -/

/-- The message as a polynomial: the first byte has the highest powers, and in each byte
the lowest bit. -/
noncomputable def messagePoly (buf : List (BitVec 8)) : (ZMod 2)[X] :=
  buf.foldl (fun m p => X ^ 8 * m + toPoly p) 0

noncomputable def crc32Generator : (ZMod 2)[X] :=
  X ^ 32 + X ^ 26 + X ^ 23 + X ^ 22 + X ^ 16 + X ^ 12 + X ^ 11 + X ^ 10 + X ^ 8 + X ^ 7 + X ^ 5 +
    X ^ 4 + X ^ 2 + X + 1

theorem generator_feedback : generator feedback = crc32Generator := by
  simp [generator, toPoly, Finset.sum_range_succ, bit, feedback, crc32Generator]
  ring

theorem generator_dvd_message (crc : BitVec 32) (buf : List (BitVec 8)) :
    generator feedback ∣ X ^ (8 * buf.length) * toPoly crc + X ^ 32 * messagePoly buf -
      toPoly (buf.foldl crc32Step crc) := by
  induction buf using List.reverseRecOn with
  | nil => simp [messagePoly]
  | append_singleton buf p ih =>
    have hstep := generator_dvd_shift feedback (buf.foldl crc32Step crc ^^^ p.setWidth 32) 8
    have hbyte : toPoly (buf.foldl crc32Step crc ^^^ p.setWidth 32) =
        toPoly (buf.foldl crc32Step crc) + X ^ 24 * toPoly p := by
      rw [toPoly_xor, ← toPoly_setWidth p 24]
    have hmessage : messagePoly (buf ++ [p]) = X ^ 8 * messagePoly buf + toPoly p := by
      rw [messagePoly, List.foldl_append, ← messagePoly]
      rfl
    rw [List.foldl_append, List.foldl_cons, List.foldl_nil, crc32Step_eq_shift, hmessage,
      List.length_append, List.length_singleton]
    rw [hbyte] at hstep
    refine (dvd_add (Dvd.dvd.mul_left ih (X ^ 8)) hstep).trans (dvd_of_eq ?_)
    ring

/-- The table-driven loop is the bit-serial register, and what it leaves before the final
complement is the remainder of the message, with its first 32 bits complemented. -/
theorem crc32_is_remainder (buf : List (BitVec 8)) :
    crc32 buf = crc32BitSerial buf ∧
      toPoly (~~~ crc32 buf) = (X ^ (8 * buf.length) * toPoly (BitVec.allOnes 32) +
        X ^ 32 * messagePoly buf) %ₘ crc32Generator := by
  refine ⟨crc32_eq_bitSerial buf, ?_⟩
  have hregister : ~~~ crc32 buf = buf.foldl crc32Step (BitVec.allOnes 32) := by
    have hnot : crc32 buf = ~~~ buf.foldl crc32Step (BitVec.allOnes 32) := BitVec.xor_allOnes
    rw [hnot, BitVec.not_not]
  rw [hregister, ← generator_feedback]
  exact toPoly_eq_mod (generator_dvd_message (BitVec.allOnes 32) buf)

end Homework.Crc32
