import Mathlib.Data.List.Nodup
import Homework.Rarjpeg.Scanner

/-!
# The counter of the scanner

After a mismatch the counter starts again with the next byte, and the byte that did not match
is not compared with the first byte of the signature. So the beginnings `50`, `50 4B` and
`50 4B 03` of the signature, where they stand back to back, count off in pairs, and an odd one
in front of a signature hides it.
-/

namespace Homework.Rarjpeg

set_option autoImplicit false

section Feed

variable {beyond : Nat → Int} {counter : Nat}

def feed (beyond : Nat → Int) (counter : Nat) (bytes : List UInt8) : Nat :=
  bytes.foldl (nextCounter beyond) counter

@[simp] theorem feed_nil : feed beyond counter [] = counter := rfl

@[simp] theorem feed_cons (ch : UInt8) (bytes : List UInt8) :
    feed beyond counter (ch :: bytes) = feed beyond (nextCounter beyond counter ch) bytes := rfl

theorem feed_append (bytes bytes' : List UInt8) :
    feed beyond counter (bytes ++ bytes') = feed beyond (feed beyond counter bytes) bytes' :=
  List.foldl_append

theorem feed_concat (bytes : List UInt8) (ch : UInt8) :
    feed beyond counter (bytes ++ [ch]) = nextCounter beyond (feed beyond counter bytes) ch :=
  feed_append bytes [ch]

theorem nextCounter_eq_or (ch : UInt8) :
    nextCounter beyond counter ch = counter + 1 ∨ nextCounter beyond counter ch = 0 := by
  unfold nextCounter
  split
  · exact Or.inl rfl
  · exact Or.inr rfl

theorem nextCounter_of_getElem? {b : UInt8} (h : signature[counter]? = some b) (ch : UInt8) :
    nextCounter beyond counter ch = if ch = b then counter + 1 else 0 := by
  unfold nextCounter lfhSignature
  rw [h]
  have hiff : ((ch.toNat : Int) = b.toNat) ↔ ch = b := by
    rw [Int.natCast_inj, UInt8.toNat_inj]
  simp only [hiff]

/-- The scanner has just started, or is past the signature after an entry. -/
def Fresh (counter : Nat) : Prop := counter = 0 ∨ 4 < counter

/-- The last bytes read are as much of the signature as the counter says. -/
theorem feed_suffix (hfresh : Fresh counter) {bytes : List UInt8}
    (h : feed beyond counter bytes ≤ 4) :
    signature.take (feed beyond counter bytes) <:+ bytes := by
  induction bytes using List.reverseRecOn with
  | nil =>
    have hzero : counter = 0 := by
      rw [feed_nil] at h
      unfold Fresh at hfresh
      omega
    simp [hzero]
  | append_singleton bytes ch ih =>
    rw [feed_concat] at h ⊢
    rcases @nextCounter_eq_or beyond (feed beyond counter bytes) ch with hnext | hnext
    · rw [hnext] at h ⊢
      have hlt : feed beyond counter bytes < signature.length := by
        simp only [signature, List.length_cons, List.length_nil]
        omega
      have hget := List.getElem?_eq_getElem hlt
      have hch : ch = signature[feed beyond counter bytes] := by
        by_contra hne
        rw [nextCounter_of_getElem? hget, if_neg hne] at hnext
        omega
      obtain ⟨before, hbefore⟩ := ih (by omega)
      refine ⟨before, ?_⟩
      rw [List.take_add_one, hget, ← List.append_assoc, hbefore, Option.toList_some, ← hch]
    · rw [hnext]
      simp

theorem feed_ne_four (hfresh : Fresh counter) {bytes : List UInt8}
    (hbytes : ¬ signature <:+: bytes) : feed beyond counter bytes ≠ 4 := by
  intro h
  have hsuffix := @feed_suffix beyond counter hfresh bytes (by omega)
  rw [h] at hsuffix
  exact hbytes hsuffix.isInfix

theorem feed_lt_four {bytes : List UInt8} (hbytes : ¬ signature <:+: bytes) :
    feed beyond 0 bytes < 4 := by
  induction bytes using List.reverseRecOn with
  | nil => exact Nat.zero_lt_succ 3
  | append_singleton bytes ch ih =>
    have hbefore := ih fun h => hbytes (h.trans (List.prefix_append _ _).isInfix)
    have hne := @feed_ne_four beyond 0 (Or.inl rfl) _ hbytes
    rw [feed_concat] at hne ⊢
    rcases @nextCounter_eq_or beyond (feed beyond 0 bytes) ch with hnext | hnext <;> omega

end Feed

/-- How many beginnings of the signature stand back to back at the end of some bytes, which
are given backwards. -/
def beginnings : List UInt8 → Nat
  | 0x50 :: rest => beginnings rest + 1
  | 0x4B :: 0x50 :: rest => beginnings rest + 1
  | 0x03 :: 0x4B :: 0x50 :: rest => beginnings rest + 1
  | _ => 0

/-- A beginning of the signature is counted from 0 only. -/
theorem feed_take {beyond : Nat → Int} {counter k : Nat} (hcounter : counter < 4) (hk : 0 < k)
    (hk' : k ≤ 4) :
    feed beyond counter (signature.take k) = if counter = 0 then k else 0 := by
  have hstep : ∀ {i j : Nat}, i < 4 → (hj : j < signature.length) →
      nextCounter beyond i signature[j] = if i = j then i + 1 else 0 := by
    intro i j hi hj
    have hnodup : signature.Nodup := by decide
    have hi' : i < signature.length := hi
    rw [nextCounter_of_getElem? (List.getElem?_eq_getElem hi')]
    have hiff : signature[j] = signature[i] ↔ i = j := by
      rw [List.Nodup.getElem_inj_iff hnodup]
      exact eq_comm
    simp only [hiff]
  induction k with
  | zero => omega
  | succ k ih =>
    have hlt : k < signature.length := hk'
    rw [List.take_add_one, List.getElem?_eq_getElem hlt, Option.toList_some, feed_concat]
    by_cases hzero : k = 0
    · simp only [hzero, List.take_zero, feed_nil]
      rw [hstep hcounter]
      split <;> simp_all
    · rw [ih (by omega) (by omega)]
      by_cases hc : counter = 0
      · rw [if_pos hc, if_pos hc, hstep (by omega), if_pos rfl]
      · rw [if_neg hc, if_neg hc, hstep (by omega), if_neg (by omega)]

theorem feed_reverse_take {beyond : Nat → Int} {rest : List UInt8} {k : Nat} (hk : 0 < k)
    (hk' : k ≤ 4)
    (hlt : ∀ passed, passed <+: rest.reverse ++ signature.take k → feed beyond 0 passed < 4)
    (ih : (∀ passed, passed <+: rest.reverse → feed beyond 0 passed < 4) →
      (feed beyond 0 rest.reverse = 0 ↔ beginnings rest % 2 = 0)) :
    feed beyond 0 (rest.reverse ++ signature.take k) = 0 ↔ (beginnings rest + 1) % 2 = 0 := by
  have hrest : ∀ passed, passed <+: rest.reverse → feed beyond 0 passed < 4 :=
    fun passed hpassed => hlt passed (hpassed.trans (List.prefix_append _ _))
  have hiff := ih hrest
  rw [feed_append, feed_take (hrest _ (List.prefix_refl _)) hk hk']
  split <;> omega

/-- The counter is 0 where the beginnings have counted off in pairs, as long as it has not come
to 4. -/
theorem feed_eq_zero_iff_of_lt {beyond : Nat → Int} {bytes : List UInt8}
    (hlt : ∀ passed, passed <+: bytes.reverse → feed beyond 0 passed < 4) :
    feed beyond 0 bytes.reverse = 0 ↔ beginnings bytes % 2 = 0 := by
  induction bytes using beginnings.induct with
  | case1 rest ih =>
    have heq : (0x50 :: rest).reverse = rest.reverse ++ signature.take 1 := by simp [signature]
    rw [heq] at hlt ⊢
    rw [beginnings]
    exact feed_reverse_take (by omega) (by omega) hlt ih
  | case2 rest ih =>
    have heq : (0x4B :: 0x50 :: rest).reverse = rest.reverse ++ signature.take 2 := by
      simp [signature]
    rw [heq] at hlt ⊢
    rw [beginnings]
    exact feed_reverse_take (by omega) (by omega) hlt ih
  | case3 rest ih =>
    have heq : (0x03 :: 0x4B :: 0x50 :: rest).reverse = rest.reverse ++ signature.take 3 := by
      simp [signature]
    rw [heq] at hlt ⊢
    rw [beginnings]
    exact feed_reverse_take (by omega) (by omega) hlt ih
  | case4 bytes h₁ h₂ h₃ =>
    -- the bytes do not end in a beginning, so the counter cannot stand at one
    have hlast := hlt _ (List.prefix_refl _)
    have hsuffix := @feed_suffix beyond 0 (Or.inl rfl) _ (Nat.le_of_lt hlast)
    rw [beginnings.eq_4 bytes h₁ h₂ h₃]
    generalize feed beyond 0 bytes.reverse = c at hlast hsuffix ⊢
    rw [← List.reverse_prefix, List.reverse_reverse] at hsuffix
    obtain ⟨rest, hrest⟩ := hsuffix
    have hcases : c = 0 ∨ c = 1 ∨ c = 2 ∨ c = 3 := by omega
    rcases hcases with rfl | rfl | rfl | rfl
    · simp
    · exact (h₁ rest hrest.symm).elim
    · exact (h₂ rest hrest.symm).elim
    · exact (h₃ rest hrest.symm).elim

theorem feed_eq_zero_iff (beyond : Nat → Int) {bytes : List UInt8}
    (hbytes : ¬ signature <:+: bytes.reverse) :
    feed beyond 0 bytes.reverse = 0 ↔ beginnings bytes % 2 = 0 := by
  apply feed_eq_zero_iff_of_lt
  intro passed hpassed
  exact feed_lt_four fun h => hbytes (h.trans hpassed.isInfix)

end Homework.Rarjpeg
