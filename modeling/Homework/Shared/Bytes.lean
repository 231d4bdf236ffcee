import Mathlib.Data.List.Basic

/-!
# Copying a block of elements into a list

`copyInto xs i ys` is `memcpy` of `ys` to position `i` of `xs`. Ranges of a list are
`List.extract`, so that `xs.extract i j` is the half-open range from `i` to `j`.
String literals are written `ascii s`, one byte a character.

This module names no program.
-/

namespace Homework

set_option autoImplicit false

universe u
variable {α : Type u}

def copyInto (xs : List α) (i : Nat) (ys : List α) : List α :=
  xs.take i ++ ys ++ xs.drop (i + ys.length)

def ascii (s : String) : List UInt8 := s.toList.map fun c => UInt8.ofNat c.toNat

@[simp] theorem copyInto_nil (xs : List α) (i : Nat) : copyInto xs i [] = xs := by
  simp [copyInto]

theorem length_copyInto {xs ys : List α} {i : Nat} (h : i + ys.length ≤ xs.length) :
    (copyInto xs i ys).length = xs.length := by
  simp only [copyInto, List.length_append, List.length_take, List.length_drop]
  omega

theorem getElem?_copyInto {xs ys : List α} {i : Nat} (h : i + ys.length ≤ xs.length) (k : Nat) :
    (copyInto xs i ys)[k]? = if i ≤ k ∧ k < i + ys.length then ys[k - i]? else xs[k]? := by
  simp only [copyInto, List.append_assoc, List.getElem?_append, List.length_take,
    List.getElem?_take, List.getElem?_drop]
  have hmin : min i xs.length = i := by omega
  rw [hmin]
  by_cases hki : k < i
  · have hout : ¬ i ≤ k := by omega
    simp [hki, hout]
  · by_cases hky : k < i + ys.length
    · have hge : i ≤ k := by omega
      have hin : k - i < ys.length := by omega
      simp [hki, hky, hge, hin]
    · have hout : ¬ k - i < ys.length := by omega
      have hback : i + ys.length + (k - i - ys.length) = k := by omega
      simp [hki, hky, hout, hback]

/-- `memcpy` byte by byte. -/
theorem copyInto_cons {xs ys : List α} {y : α} {i : Nat} (h : i + (y :: ys).length ≤ xs.length) :
    copyInto xs i (y :: ys) = copyInto (xs.set i y) (i + 1) ys := by
  rw [List.length_cons] at h
  apply List.ext_getElem?
  intro k
  rw [getElem?_copyInto (by simpa using h),
    getElem?_copyInto (by rw [List.length_set]; omega), List.getElem?_set, List.length_cons]
  by_cases hki : k = i
  · subst k
    rw [if_pos (by omega), if_neg (by omega), if_pos rfl, if_pos (by omega), Nat.sub_self,
      List.getElem?_cons_zero]
  · by_cases hin : i ≤ k ∧ k < i + (ys.length + 1)
    · have hsub : k - i = k - (i + 1) + 1 := by omega
      rw [if_pos hin, if_pos (by omega), hsub, List.getElem?_cons_succ]
    · rw [if_neg hin, if_neg (by omega), if_neg (Ne.symm hki)]

theorem getElem?_extract (xs : List α) (i j k : Nat) :
    (xs.extract i j)[k]? = if i + k < j then xs[i + k]? else none := by
  simp only [List.extract_eq_take_drop, List.getElem?_take, List.getElem?_drop]
  by_cases h : i + k < j
  · have hin : k < j - i := by omega
    simp [h, hin]
  · have hout : ¬ k < j - i := by omega
    simp [h, hout]

theorem take_extract (xs : List α) (i j n : Nat) :
    (xs.extract i j).take n = xs.extract i (min j (i + n)) := by
  simp only [List.extract_eq_take_drop, List.take_take]
  congr 1
  omega

theorem drop_extract (xs : List α) (i j n : Nat) :
    (xs.extract i j).drop n = xs.extract (i + n) j := by
  simp only [List.extract_eq_take_drop, List.drop_take, List.drop_drop]
  congr 1
  omega

theorem extract_congr {xs ys : List α} {i j : Nat}
    (h : ∀ k, i ≤ k → k < j → xs[k]? = ys[k]?) : xs.extract i j = ys.extract i j := by
  apply List.ext_getElem?
  intro k
  simp only [getElem?_extract]
  split
  · exact h (i + k) (Nat.le_add_right i k) (by assumption)
  · rfl

theorem extract_append_extract {xs : List α} {i j k : Nat} (hij : i ≤ j) (hjk : j ≤ k) :
    xs.extract i j ++ xs.extract j k = xs.extract i k := by
  have hleft : (xs.extract i k).take (j - i) = xs.extract i j := by
    have hend : min k (i + (j - i)) = j := by omega
    rw [take_extract, hend]
  have hright : (xs.extract i k).drop (j - i) = xs.extract j k := by
    have hstart : i + (j - i) = j := by omega
    rw [drop_extract, hstart]
  rw [← hleft, ← hright, List.take_append_drop]

theorem extract_succ_right {xs : List α} (i : Nat) : xs.extract i (i + 1) = (xs[i]?).toList := by
  rw [List.extract_eq_take_drop, Nat.add_sub_cancel_left, List.take_one, List.head?_drop]

theorem extract_copyInto_before {xs ys : List α} {i j k : Nat}
    (h : i + ys.length ≤ xs.length) (hk : k ≤ i) :
    (copyInto xs i ys).extract j k = xs.extract j k := by
  apply List.ext_getElem?
  intro n
  simp only [getElem?_extract, getElem?_copyInto h]
  by_cases hn : j + n < k
  · have hout : ¬ i ≤ j + n := by omega
    simp [hn, hout]
  · simp [hn]

theorem extract_copyInto_after {xs ys : List α} {i j k : Nat}
    (h : i + ys.length ≤ xs.length) (hj : i + ys.length ≤ j) :
    (copyInto xs i ys).extract j k = xs.extract j k := by
  apply List.ext_getElem?
  intro n
  have hout : ¬ j + n < i + ys.length := by omega
  simp [getElem?_extract, getElem?_copyInto h, hout]

theorem extract_copyInto_self {xs ys : List α} {i : Nat} (h : i + ys.length ≤ xs.length) :
    (copyInto xs i ys).extract i (i + ys.length) = ys := by
  apply List.ext_getElem?
  intro n
  simp only [getElem?_extract, getElem?_copyInto h]
  by_cases hn : n < ys.length
  · simp [hn]
  · simp [hn]

end Homework
