import Mathlib.Data.List.FinRange
import Homework.Shared.Interleaving
import Homework.TopN.Room

/-!
# The statistics threads

`hw10-threads/main.c`. A thread reads its files one after another into two containers of
its own and merges these into the global ones under their locks. A file is what its
matching lines yield; `none` is a file that `fopen` does not open.

The atomic steps on shared memory are the `ts_add` of a line and the two merges of a file.
The calls on a thread's own containers go with the `ts_add` of their line.
-/

namespace Homework.TopN

set_option autoImplicit false

universe u v

def top : Nat := 10

/-- What a matching line yields. The size is the `atoi` of a string of digits. -/
structure LogLine (κ : Type u) where
  url : κ
  size : Nat
  referer : κ
  deriving DecidableEq, Repr

abbrev LogFile (κ : Type u) := Option (List (LogLine κ))

/-! ## The files of each thread -/

/-- The positions in the file list that `main` gives to each thread. -/
def threadFileIndices (count threadCount : Nat) : List (List Nat) :=
  let threadCount := if threadCount > count then count else threadCount
  let filePerThread := count / threadCount
  (List.range threadCount).map fun i =>
    let threadFileListPos := i * filePerThread
    let own := (List.range filePerThread).map fun j => threadFileListPos + j
    if filePerThread * threadCount < count ∧ i = threadCount - 1 then
      own ++ List.range' (filePerThread * threadCount) (count - filePerThread * threadCount)
    else own

/-- `g_slist_nth_data` is never asked for a position past the end of the list. -/
def threadFileLists {α : Type v} (fileList : List α) (threadCount : Nat) : List (List α) :=
  (threadFileIndices fileList.length threadCount).map fun indices =>
    indices.filterMap fun i => fileList[i]?

theorem flatten_blocks (size n : Nat) :
    ((List.range n).map fun i => (List.range size).map fun j => i * size + j).flatten =
      List.range (n * size) := by
  induction n with
  | zero => simp
  | succ n ih =>
    rw [List.range_succ, List.map_append, List.flatten_append, ih, Nat.succ_mul, List.range_add]
    simp

theorem flatten_threadFileIndices (count : Nat) {threadCount : Nat} (hpos : 1 ≤ threadCount) :
    (threadFileIndices count threadCount).flatten = List.range count := by
  unfold threadFileIndices
  dsimp only
  generalize hn : (if threadCount > count then count else threadCount) = n
  rcases Nat.eq_zero_or_pos n with hzero | hn0
  · have hcount : count = 0 := by
      split at hn <;> omega
    subst hzero hcount
    rfl
  · obtain ⟨m, rfl⟩ : ∃ m, n = m + 1 := ⟨n - 1, by omega⟩
    have hle : count / (m + 1) * (m + 1) ≤ count := Nat.div_mul_le_self count (m + 1)
    have hblocks := flatten_blocks (count / (m + 1)) (m + 1)
    rw [List.range_succ, List.map_append, List.flatten_append] at hblocks ⊢
    have hfront : ∀ i ∈ List.range m, ¬ (count / (m + 1) * (m + 1) < count ∧ i = m + 1 - 1) := by
      intro i hi
      have := List.mem_range.mp hi
      omega
    rw [List.map_congr_left fun i hi => if_neg (hfront i hi)]
    by_cases hrest : count / (m + 1) * (m + 1) < count
    · simp only [List.map_cons, List.map_nil, List.flatten_cons, List.flatten_nil,
        List.append_nil, Nat.add_sub_cancel, hrest, true_and, if_true] at hblocks ⊢
      have hjoin := @List.range'_append_1 0 (count / (m + 1) * (m + 1))
        (count - count / (m + 1) * (m + 1))
      rw [Nat.zero_add, Nat.add_sub_of_le hle] at hjoin
      rw [← List.append_assoc, hblocks, Nat.mul_comm (m + 1), List.range_eq_range', hjoin,
        List.range_eq_range']
    · have hall : count / (m + 1) * (m + 1) = count := by omega
      rw [List.map_cons, if_neg fun h => hrest h.1]
      rw [Nat.mul_comm (m + 1), hall] at hblocks
      exact hblocks

theorem flatten_threadFileLists {α : Type v} (fileList : List α) {threadCount : Nat}
    (hpos : 1 ≤ threadCount) : (threadFileLists fileList threadCount).flatten = fileList := by
  have hall : (List.range fileList.length).filterMap (fun i => fileList[i]?) = fileList := by
    induction fileList using List.reverseRecOn with
    | nil => rfl
    | append_singleton l a ih =>
      have hfront : ∀ i ∈ List.range l.length, (l ++ [a])[i]? = l[i]? := fun i hi =>
        List.getElem?_append_left (List.mem_range.mp hi)
      rw [List.length_append, List.length_singleton, List.range_succ, List.filterMap_append,
        List.filterMap_congr hfront, ih]
      simp
  rw [threadFileLists, ← List.filterMap_flatten, flatten_threadFileIndices _ hpos, hall]

/-! ## `get_stat` -/

structure Globals (κ : Type u) where
  glUrlToSz : TopNContainer κ
  glRefToCt : TopNContainer κ
  glTotalSize : Nat

/-- Where a thread is in `get_stat`: at the head of the loop over the files, at the head of
the loop over the lines of an open one, or between the two merges. -/
inductive GetStat (κ : Type u) where
  | next (fileList : List (LogFile κ))
  | reading (urlToSz refToCt : TopNContainer κ) (lines : List (LogLine κ))
      (fileList : List (LogFile κ))
  | merging (refToCt : TopNContainer κ) (fileList : List (LogFile κ))

def tsAdd (total size : Nat) : Nat := (total + size) % 2 ^ 64

variable {κ : Type u} [DecidableEq κ]

def getStat (gl : Globals κ) : GetStat κ → Globals κ × GetStat κ
  | .next [] => (gl, .next [])
  | .next (none :: fileList) => (gl, .next fileList)
  | .next (some lines :: fileList) =>
    (gl, .reading (topnContInit (top * 100)) (topnContInit (top * 100)) lines fileList)
  | .reading urlToSz refToCt (line :: lines) fileList =>
    ({ gl with glTotalSize := tsAdd gl.glTotalSize line.size },
      .reading (topnContAdd urlToSz line.url line.size) (topnContAdd refToCt line.referer 1)
        lines fileList)
  | .reading urlToSz refToCt [] fileList =>
    ({ gl with glUrlToSz := topnContMerge gl.glUrlToSz urlToSz }, .merging refToCt fileList)
  | .merging refToCt fileList =>
    ({ gl with glRefToCt := topnContMerge gl.glRefToCt refToCt }, .next fileList)

abbrev Threads (κ : Type u) (fileList : List (LogFile κ)) (threadCount : Nat) :=
  System (Globals κ) (GetStat κ) (Fin (threadFileLists fileList threadCount).length)

/-- The threads as `main` creates them. One that is created late is one that is scheduled
late. -/
def start (fileList : List (LogFile κ)) (threadCount : Nat) : Threads κ fileList threadCount where
  shared :=
    { glUrlToSz := topnContInit (top * 100)
      glRefToCt := topnContInit (top * 100)
      glTotalSize := 0 }
  workers i := .next ((threadFileLists fileList threadCount).get i)

def Joined {fileList : List (LogFile κ)} {threadCount : Nat} (s : Threads κ fileList threadCount) :
    Prop := ∀ i, s.workers i = .next []

end Homework.TopN
