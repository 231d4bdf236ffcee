import Mathlib.Data.List.Perm.Basic
import Homework.TopN.Print
import Homework.TopN.Threads

/-!
# Dividing the files among the threads

The part of `main` in `hw10-threads/main.c` that makes the lists of the threads, with the
types of its variables. `thread_count` is a `size_t` that is assigned what `atoi` returns,
`thread_file_list_pos` and `file_index` are `int`, and `g_slist_nth_data` takes a `guint`.
A list is given by the positions that `g_slist_nth_data` is asked for.
-/

namespace Homework.TopN

set_option autoImplicit false

def sizeT (x : Int) : Nat := (x % 2 ^ 64).toNat

def guint (x : Int) : Nat := (x % 2 ^ 32).toNat

/-- The positions for every thread, where `value` is the `atoi` of the argument, or `none` if
`count / thread_count` divides by zero. -/
def divideFiles {α : Type} (fileList : List α) (value : Int) : Option (List (List Nat)) :=
  let count := gSListLength fileList
  let threadCount := if sizeT value > count then count else sizeT value
  if threadCount = 0 then none
  else
    let filePerThread := count / threadCount
    some <| (List.range threadCount).map fun (i : Nat) =>
      let threadFileListPos := intOf (sizeT (i * filePerThread))
      let own := (List.range filePerThread).map fun (j : Nat) =>
        let fileIndex := intOf (sizeT (sizeT threadFileListPos + j))
        guint fileIndex
      if filePerThread * threadCount < count ∧ i = threadCount - 1 then
        own ++ (List.range' (filePerThread * threadCount)
          (count - filePerThread * threadCount)).map fun (j : Nat) => guint j
      else own

theorem intOf_emod (x : Int) : intOf x % 2 ^ 32 = x % 2 ^ 32 := Int.bmod_emod

theorem sizeT_emod (x : Int) : (sizeT x : Int) % 2 ^ 32 = x % 2 ^ 32 := by
  unfold sizeT
  rw [Int.toNat_of_nonneg (Int.emod_nonneg x (by decide))]
  exact Int.emod_emod_of_dvd x (by decide)

/-- Through all of the conversions a position below 2^32 stays what it is. -/
theorem guint_fileIndex {pos : Int} (hpos : 0 ≤ pos) {j : Nat} (h : pos + j < 2 ^ 32) :
    guint (intOf (sizeT (sizeT (intOf (sizeT pos)) + j))) = (pos + j).toNat := by
  have hsame : (sizeT (intOf (sizeT pos)) + j : Int) % 2 ^ 32 = (pos + j) % 2 ^ 32 := by
    rw [Int.add_emod, sizeT_emod, intOf_emod, sizeT_emod, ← Int.add_emod]
  unfold guint
  rw [intOf_emod, sizeT_emod, hsame, Int.emod_eq_of_lt (by omega) h]

theorem guint_natCast {j : Nat} (h : j < 2 ^ 32) : guint j = j := by
  unfold guint
  omega

theorem sizeT_eq_zero_iff {value : Int} (h : InInt value) : sizeT value = 0 ↔ value = 0 := by
  obtain ⟨hlo, hhi⟩ := h
  unfold sizeT
  omega

section Divide

variable {α : Type} {fileList : List α} {value : Int}

/-- Divided are the positions below the length that GLib reports. -/
theorem divideFiles_eq (hcount : gSListLength fileList ≠ 0) (hvalue : sizeT value ≠ 0) :
    divideFiles fileList value =
      some (threadFileIndices (gSListLength fileList) (sizeT value)) := by
  have hlt : gSListLength fileList < 2 ^ 32 := Nat.mod_lt _ (by decide)
  unfold divideFiles threadFileIndices
  dsimp only
  generalize gSListLength fileList = count at *
  generalize hn : (if sizeT value > count then count else sizeT value) = n
  have hn0 : n ≠ 0 := by
    split at hn <;> omega
  rw [if_neg hn0]
  apply congrArg some
  apply List.map_congr_left
  intro i hi
  rw [List.mem_range] at hi
  have hblocks : (i + 1) * (count / n) ≤ count :=
    (Nat.mul_le_mul_right _ hi).trans (Nat.mul_div_le count n)
  have hown : (List.range (count / n)).map (fun (j : Nat) =>
      guint (intOf (sizeT (sizeT (intOf (sizeT (i * (count / n : Nat)))) + j)))) =
        (List.range (count / n)).map fun j => i * (count / n) + j := by
    apply List.map_congr_left
    intro j hj
    rw [List.mem_range] at hj
    rw [Nat.succ_mul] at hblocks
    rw [← Int.natCast_mul, guint_fileIndex (Int.natCast_nonneg _) (by omega)]
    omega
  have hrest : (List.range' (count / n * n) (count - count / n * n)).map
      (fun (j : Nat) => guint j) = List.range' (count / n * n) (count - count / n * n) := by
    have hid : ∀ j ∈ List.range' (count / n * n) (count - count / n * n), guint j = id j := by
      intro j hj
      rw [List.mem_range'_1] at hj
      exact guint_natCast (by omega)
    rw [List.map_congr_left hid, List.map_id]
  rw [hown, hrest]

theorem flatten_divideFiles (hcount : gSListLength fileList ≠ 0) (hvalue : sizeT value ≠ 0) :
    (divideFiles fileList value).map List.flatten =
      some (List.range (gSListLength fileList)) := by
  rw [divideFiles_eq hcount hvalue, Option.map_some,
    flatten_threadFileIndices _ (Nat.one_le_iff_ne_zero.mpr hvalue)]

/-- The number 0, which is also what `atoi` makes of a word, is the only one that is wrong. -/
theorem files_are_divided_iff (hfiles : fileList ≠ []) (hint : InInt value) :
    (∃ lists, divideFiles fileList value = some lists ∧
      lists.flatten.Perm (List.range fileList.length)) ↔
        value ≠ 0 ∧ fileList.length < 2 ^ 32 := by
  have hpos := List.length_pos_of_ne_nil hfiles
  have hzero : value ≠ 0 ↔ sizeT value ≠ 0 := (not_congr (sizeT_eq_zero_iff hint)).symm
  rw [hzero]
  constructor
  · rintro ⟨lists, hlists, hperm⟩
    have hvalue : sizeT value ≠ 0 := by
      intro hzero
      simp [divideFiles, hzero] at hlists
    have hcount : gSListLength fileList ≠ 0 := by
      intro hzero
      simp [divideFiles, hzero] at hlists
    have hflat := flatten_divideFiles hcount hvalue
    rw [hlists, Option.map_some, Option.some.injEq] at hflat
    have hlen := hperm.length_eq
    rw [hflat, List.length_range, List.length_range, gSListLength] at hlen
    refine ⟨hvalue, ?_⟩
    rw [← hlen]
    exact Nat.mod_lt _ (by decide)
  · rintro ⟨hvalue, hlt⟩
    have hall : gSListLength fileList = fileList.length := Nat.mod_eq_of_lt hlt
    have hcount : gSListLength fileList ≠ 0 := by omega
    have hflat := flatten_divideFiles hcount hvalue
    obtain ⟨lists, hlists, hflat⟩ := Option.map_eq_some_iff.mp hflat
    refine ⟨lists, hlists, ?_⟩
    rw [hflat, hall]

theorem files_are_divided_iff_of_seven :
    ∃ lists, divideFiles [0, 1, 2, 3, 4, 5, 6, 7, 8] 7 = some lists ∧
      lists.flatten.Perm (List.range 9) :=
  (@files_are_divided_iff Nat [0, 1, 2, 3, 4, 5, 6, 7, 8] 7 (by decide) (by decide)).mpr
    (by decide)

theorem no_threads_divide_by_zero :
    ¬ ∃ lists, divideFiles [()] 0 = some lists ∧
      lists.flatten.Perm (List.range [()].length) := by
  rintro ⟨lists, hlists, -⟩
  cases hlists

end Divide

end Homework.TopN
