import Homework.Crc32.Errors

/-!
# Checksums of joined buffers

What stands in front of a buffer only shifts through the register. So the checksum of two
buffers in a row comes from theirs and the length of the second, and a buffer with its own
checksum behind it always has the same one.
-/

namespace Homework.Crc32

open ShiftRegister
set_option autoImplicit false

theorem foldl_crc32Step_xor (crc d : BitVec 32) (buf : List (BitVec 8)) :
    buf.foldl crc32Step (crc ^^^ d) =
      buf.foldl crc32Step crc ^^^ shift feedback (8 * buf.length) d := by
  induction buf using List.reverseRecOn with
  | nil => rfl
  | append_singleton buf p ih =>
    have hmoved : ∀ r s t : BitVec 32, r ^^^ s ^^^ t = r ^^^ t ^^^ s := by
      intro r s t
      rw [BitVec.xor_assoc, BitVec.xor_comm s t, BitVec.xor_assoc]
    have hlength : 8 * (buf ++ [p]).length = 8 * buf.length + 8 := by
      rw [List.length_append, List.length_singleton]
      omega
    rw [List.foldl_append, List.foldl_append, ih, List.foldl_cons, List.foldl_nil, List.foldl_cons,
      List.foldl_nil, crc32Step_eq_shift, crc32Step_eq_shift, hmoved, shift_xor, hlength,
      shift_add]

theorem register_eq (buf : List (BitVec 8)) :
    buf.foldl crc32Step (BitVec.allOnes 32) = crc32 buf ^^^ BitVec.allOnes 32 := by
  have hones : crc32 buf = buf.foldl crc32Step (BitVec.allOnes 32) ^^^ BitVec.allOnes 32 := rfl
  rw [hones, BitVec.xor_assoc, BitVec.xor_self, BitVec.xor_zero]

/-- The checksum of two buffers in a row. -/
theorem crc32_append (a b : List (BitVec 8)) :
    crc32 (a ++ b) = shift feedback (8 * b.length) (crc32 a) ^^^ crc32 b := by
  have hones : crc32 (a ++ b) =
      (a ++ b).foldl crc32Step (BitVec.allOnes 32) ^^^ BitVec.allOnes 32 := rfl
  rw [hones, List.foldl_append, register_eq a, BitVec.xor_comm (crc32 a), foldl_crc32Step_xor,
    register_eq b, BitVec.xor_comm (crc32 b), BitVec.xor_assoc, BitVec.xor_comm,
    ← BitVec.xor_assoc]
  rw [BitVec.xor_assoc (shift feedback _ _), BitVec.xor_self, BitVec.xor_zero]

/-! ## A checksum behind its buffer -/

/-- The checksum with its lowest byte first. -/
def crc32Bytes (crc : BitVec 32) : List (BitVec 8) :=
  [crc.extractLsb' 0 8, crc.extractLsb' 8 8, crc.extractLsb' 16 8, crc.extractLsb' 24 8]

def residue : BitVec 32 := 0x2144DF1C

theorem shift_allOnes : shift feedback 32 (BitVec.allOnes 32) = residue ^^^ BitVec.allOnes 32 := by
  decide +kernel

theorem word_crc32Bytes (crc : BitVec 32) : word (crc32Bytes crc) = crc := by
  apply BitVec.eq_of_getLsbD_eq
  intro i hi
  have hindex : ∀ n, n ≤ i → n + (i - n) = i := fun n hn => by omega
  simp only [crc32Bytes, getLsbD_word_cons, BitVec.getLsbD_extractLsb', Nat.sub_sub]
  rcases Nat.lt_or_ge i 8 with h8 | h8
  · simp [h8]
  rcases Nat.lt_or_ge i 16 with h16 | h16
  · have hsub : i - 8 < 8 := by omega
    simp [not_lt.mpr h8, hi, hsub, hindex 8 h8]
  rcases Nat.lt_or_ge i 24 with h24 | h24
  · have hsub : ¬ i - 8 < 8 := by omega
    have hsub' : i - 16 < 8 := by omega
    have hlt : i - 8 < 32 := by omega
    simp [not_lt.mpr h8, hi, hsub, hsub', hlt, hindex 16 h16]
  · have hsub : ¬ i - 8 < 8 := by omega
    have hsub' : ¬ i - 16 < 8 := by omega
    have hsub'' : i - 24 < 8 := by omega
    have hlt : i - 8 < 32 := by omega
    have hlt' : i - 16 < 32 := by omega
    simp [not_lt.mpr h8, hi, hsub, hsub', hsub'', hlt, hlt', hindex 24 h24]

theorem length_crc32Bytes (crc : BitVec 32) : (crc32Bytes crc).length = 4 := rfl

/-- Four bytes behind a buffer are its checksum if and only if the checksum of all of it is the
residue. -/
theorem trailer_is_checksum_iff (buf trailer : List (BitVec 8)) (h : trailer.length = 4) :
    crc32 (buf ++ trailer) = residue ↔ trailer = crc32Bytes (crc32 buf) := by
  have hregister : crc32 (buf ++ trailer) =
      shift feedback 32 (crc32 buf ^^^ BitVec.allOnes 32 ^^^ word trailer) ^^^
        BitVec.allOnes 32 := by
    have hones : crc32 (buf ++ trailer) =
        (buf ++ trailer).foldl crc32Step (BitVec.allOnes 32) ^^^ BitVec.allOnes 32 := rfl
    rw [hones, List.foldl_append, register_eq, foldl_crc32Step_word _ h.le, h]
  have hresidue : residue =
      shift feedback 32 (BitVec.allOnes 32) ^^^ BitVec.allOnes 32 := by
    rw [shift_allOnes, BitVec.xor_assoc, BitVec.xor_self, BitVec.xor_zero]
  have hmoved : crc32 buf ^^^ BitVec.allOnes 32 ^^^ word trailer =
      crc32 buf ^^^ word trailer ^^^ BitVec.allOnes 32 := by
    rw [BitVec.xor_assoc, BitVec.xor_comm (BitVec.allOnes 32), BitVec.xor_assoc]
  rw [hregister, hresidue, BitVec.xor_left_inj, (shift_injective feedback_top 32).eq_iff, hmoved]
  constructor
  · intro hones
    have hword : crc32 buf = word trailer := by
      rw [← BitVec.xor_eq_zero_iff, ← BitVec.xor_left_inj (BitVec.allOnes 32), hones,
        BitVec.zero_xor]
    apply word_injective (h.trans (length_crc32Bytes _).symm) h.le
    rw [word_crc32Bytes, hword]
  · rintro rfl
    rw [word_crc32Bytes, BitVec.xor_self, BitVec.zero_xor]

theorem trailer_is_checksum_iff_of_three_bytes :
    crc32 ([1, 2, 3] ++ [4, 5, 6, 7]) = residue ↔ [4, 5, 6, 7] = crc32Bytes (crc32 [1, 2, 3]) :=
  trailer_is_checksum_iff [1, 2, 3] [4, 5, 6, 7] rfl

end Homework.Crc32
