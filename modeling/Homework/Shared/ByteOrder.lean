import Mathlib.Data.Nat.Digits.Defs

/-!
# The order of bytes

The number that some bytes stand for, the least or the most significant one first, and the swap
of the bytes of a number, which takes one to the other.

This module names no program.
-/

namespace Homework

set_option autoImplicit false

def leValue (bytes : List UInt8) : Nat := Nat.ofDigits 256 (bytes.map UInt8.toNat)

def beValue (bytes : List UInt8) : Nat := leValue bytes.reverse

/-- The lowest `n` bytes of a number, the least significant one first. -/
def leBytes : Nat → Nat → List UInt8
  | 0, _ => []
  | n + 1, x => UInt8.ofNat x :: leBytes n (x / 256)

def byteSwap (n x : Nat) : Nat := beValue (leBytes n x)

theorem leValue_cons (b : UInt8) (bytes : List UInt8) :
    leValue (b :: bytes) = b.toNat + 256 * leValue bytes := Nat.ofDigits_cons

theorem digit_lt {bytes : List UInt8} : ∀ d ∈ bytes.map UInt8.toNat, d < 256 := by
  intro d hd
  obtain ⟨b, -, rfl⟩ := List.mem_map.mp hd
  exact b.toNat_lt

theorem leValue_lt (bytes : List UInt8) : leValue bytes < 256 ^ bytes.length := by
  have hlt := Nat.ofDigits_lt_base_pow_length (by decide : 1 < 256) (@digit_lt bytes)
  rwa [List.length_map] at hlt

theorem leBytes_leValue (bytes : List UInt8) : leBytes bytes.length (leValue bytes) = bytes := by
  induction bytes with
  | nil => rfl
  | cons b bytes ih =>
    have hb := b.toNat_lt
    have hhead : UInt8.ofNat (b.toNat + 256 * leValue bytes) = b := by
      apply UInt8.toNat_inj.mp
      rw [UInt8.toNat_ofNat']
      omega
    have htail : (b.toNat + 256 * leValue bytes) / 256 = leValue bytes := by omega
    rw [List.length_cons, leBytes, leValue_cons, hhead, htail, ih]

theorem leValue_inj {xs ys : List UInt8} (hlen : xs.length = ys.length)
    (h : leValue xs = leValue ys) : xs = ys := by
  rw [← leBytes_leValue xs, hlen, h, leBytes_leValue]

theorem byteSwap_leValue (bytes : List UInt8) :
    byteSwap bytes.length (leValue bytes) = beValue bytes := by
  rw [byteSwap, leBytes_leValue]

theorem leValue_shiftRight (bytes : List UInt8) (i : Nat) :
    leValue bytes >>> (8 * i) = leValue (bytes.drop i) := by
  rw [Nat.shiftRight_eq_div_pow, Nat.pow_mul, leValue, leValue, List.map_drop]
  exact Nat.ofDigits_div_pow_eq_ofDigits_drop i (by decide) _ digit_lt

/-- A byte is cut out by a shift and a mask. -/
theorem leValue_shiftRight_and {bytes : List UInt8} {i : Nat} (hi : i < bytes.length) :
    leValue bytes >>> (8 * i) &&& 0xFF = bytes[i].toNat := by
  have hb := bytes[i].toNat_lt
  have hmask := Nat.and_two_pow_sub_one_eq_mod (leValue (bytes.drop i)) 8
  rw [leValue_shiftRight, hmask, List.drop_eq_getElem_cons hi, leValue_cons]
  omega

end Homework
