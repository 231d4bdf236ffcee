import Homework.Crc32.Remainder

/-!
# Bursts of errors

Up to four bytes in a row are xored into different places of the register, as one word. Two
buffers that differ only there leave different registers behind these bytes, and equal bytes
after that keep the registers apart, because every shift is injective.
-/

namespace Homework.Crc32

open ShiftRegister
set_option autoImplicit false

/-- Bytes as one word, the first of them in the low end. -/
def word : List (BitVec 8) → BitVec 32
  | [] => 0
  | p :: bytes => p.setWidth 32 ^^^ (word bytes <<< 8)

theorem getLsbD_word_cons (p : BitVec 8) (bytes : List (BitVec 8)) (i : Nat) :
    (word (p :: bytes)).getLsbD i =
      if i < 8 then p.getLsbD i else decide (i < 32) && (word bytes).getLsbD (i - 8) := by
  rw [word, BitVec.getLsbD_xor, BitVec.getLsbD_setWidth, BitVec.getLsbD_shiftLeft]
  by_cases hi : i < 8
  · have hlt : i < 32 := by omega
    simp [hi, hlt]
  · rw [if_neg hi, BitVec.getLsbD_of_ge p i (by omega)]
    simp [hi]

theorem getLsbD_word_of_ge {bytes : List (BitVec 8)} {i : Nat} (hi : 8 * bytes.length ≤ i) :
    (word bytes).getLsbD i = false := by
  induction bytes generalizing i with
  | nil => exact BitVec.getLsbD_zero
  | cons p bytes ih =>
    rw [List.length_cons] at hi
    rw [getLsbD_word_cons, if_neg (by omega), ih (by omega), Bool.and_false]

/-- Three bytes have room for a fourth one below them. -/
theorem word_shift {bytes : List (BitVec 8)} (hlen : bytes.length ≤ 3) :
    (word bytes <<< 8) >>> 8 = word bytes := by
  apply BitVec.eq_of_getLsbD_eq
  intro i hi
  rw [BitVec.getLsbD_ushiftRight, BitVec.getLsbD_shiftLeft, Nat.add_sub_cancel_left]
  by_cases hroom : 8 + i < 32
  · simp [hroom]
  · rw [getLsbD_word_of_ge (by omega), Bool.and_false]

theorem word_injective {bytes bytes' : List (BitVec 8)} (hlen : bytes.length = bytes'.length)
    (hle : bytes.length ≤ 4) (h : word bytes = word bytes') : bytes = bytes' := by
  induction bytes generalizing bytes' with
  | nil => exact (List.eq_nil_of_length_eq_zero hlen.symm).symm
  | cons p bytes ih =>
    obtain ⟨q, bytes', rfl⟩ := List.exists_cons_of_length_eq_add_one hlen.symm
    rw [List.length_cons, List.length_cons] at hlen
    rw [List.length_cons] at hle
    have hbit : ∀ i, (word (p :: bytes)).getLsbD i = (word (q :: bytes')).getLsbD i := by
      intro i
      rw [h]
    simp only [getLsbD_word_cons] at hbit
    have hfirst : p = q := by
      apply BitVec.eq_of_getLsbD_eq
      intro i hi
      simpa [hi] using hbit i
    have hrest : word bytes = word bytes' := by
      apply BitVec.eq_of_getLsbD_eq
      intro i hi
      by_cases hroom : 8 + i < 32
      · have hhigh := hbit (8 + i)
        rw [if_neg (by omega), if_neg (by omega), Nat.add_sub_cancel_left] at hhigh
        simpa [hroom] using hhigh
      · rw [getLsbD_word_of_ge (by omega), getLsbD_word_of_ge (by omega)]
    rw [hfirst, ih (by omega) (by omega) hrest]

/-- The loop over up to four bytes shifts their word through the register. -/
theorem foldl_crc32Step_word (crc : BitVec 32) {bytes : List (BitVec 8)} (hle : bytes.length ≤ 4) :
    bytes.foldl crc32Step crc = shift feedback (8 * bytes.length) (crc ^^^ word bytes) := by
  induction bytes generalizing crc with
  | nil => exact BitVec.xor_zero.symm
  | cons p bytes ih =>
    rw [List.length_cons] at hle
    have hlen : 8 * (p :: bytes).length = 8 + 8 * bytes.length := by
      rw [List.length_cons]
      omega
    rw [List.foldl_cons, ih _ (by omega), crc32Step_eq_shift, hlen, shift_add, word,
      ← BitVec.xor_assoc, shift_xor_high feedback _ (word_shift (by omega))]

theorem feedback_top : feedback.getLsbD (32 - 1) = true := by decide

theorem crc32Step_injective (p : BitVec 8) : Function.Injective fun crc => crc32Step crc p := by
  intro crc crc' h
  simp only [crc32Step_eq_shift] at h
  exact (BitVec.xor_left_inj _).mp (shift_injective feedback_top 8 h)

theorem foldl_crc32Step_injective (bytes : List (BitVec 8)) :
    Function.Injective fun crc => bytes.foldl crc32Step crc := by
  induction bytes with
  | nil => exact fun crc crc' h => h
  | cons p bytes ih => exact ih.comp (crc32Step_injective p)

theorem eq_outside_window {a b : List (BitVec 8)} {start size : Nat}
    (hwindow : ∀ k, a[k]? ≠ b[k]? → start ≤ k ∧ k < start + size) :
    a.take start = b.take start ∧ a.drop (start + size) = b.drop (start + size) := by
  constructor
  · apply List.ext_getElem?
    intro k
    rw [List.getElem?_take, List.getElem?_take]
    split
    · by_contra hdiffer
      have := hwindow k hdiffer
      omega
    · rfl
  · apply List.ext_getElem?
    intro k
    rw [List.getElem?_drop, List.getElem?_drop]
    by_contra hdiffer
    have := hwindow _ hdiffer
    omega

/-- Two buffers that differ in some window of four bytes have different checksums. -/
theorem burst_changes_crc32 {a b : List (BitVec 8)} (hlen : a.length = b.length) (hne : a ≠ b)
    {start : Nat} (hwindow : ∀ k, a[k]? ≠ b[k]? → start ≤ k ∧ k < start + 4) :
    crc32 a ≠ crc32 b := by
  have hsplit : ∀ l : List (BitVec 8),
      l = l.take start ++ ((l.drop start).take 4 ++ l.drop (start + 4)) := by
    intro l
    rw [← List.drop_drop, List.take_append_drop, List.take_append_drop]
  obtain ⟨hbefore, hafter⟩ := eq_outside_window hwindow
  intro h
  have hregister := (BitVec.xor_left_inj (~~~0)).mp h
  rw [hsplit a, hsplit b, hbefore, hafter] at hregister
  simp only [List.foldl_append] at hregister
  have hpassed := foldl_crc32Step_injective _ hregister
  have hle : ∀ l : List (BitVec 8), ((l.drop start).take 4).length ≤ 4 := by
    intro l
    rw [List.length_take]
    omega
  have hsame : ((a.drop start).take 4).length = ((b.drop start).take 4).length := by
    rw [List.length_take, List.length_take, List.length_drop, List.length_drop, hlen]
  rw [foldl_crc32Step_word _ (hle a), foldl_crc32Step_word _ (hle b), hsame] at hpassed
  have hword := (BitVec.xor_right_inj _).mp (shift_injective feedback_top _ hpassed)
  apply hne
  rw [hsplit a, hsplit b, hbefore, hafter, word_injective hsame (hle a) hword]

theorem burst_changes_crc32_of_two_bytes : crc32 [1, 2, 3] ≠ crc32 [1, 4, 5] := by
  refine @burst_changes_crc32 [1, 2, 3] [1, 4, 5] rfl (by decide) 1 fun k hk => ?_
  match k with
  | 0 => exact absurd rfl hk
  | 1 => decide
  | 2 => decide
  | k + 3 => exact absurd rfl hk

end Homework.Crc32
