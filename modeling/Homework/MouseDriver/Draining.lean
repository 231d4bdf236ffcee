import Mathlib.Algebra.Ring.Nat
import Homework.MouseDriver.Fifo

/-!
# Reading in pieces

However the reader splits its requests, the bytes come out in one order and the buffer
ends in one state: a read moves `tail` forward by what it delivers, and two moves are
one. `tail` may stop on the end of the array between them, but never where a single
read would not have stopped.
-/

namespace Homework.MouseDriver

set_option autoImplicit false

open RingBuffer

def drain (b : RingBuffer) (count : Nat) : RingBuffer := (ringBufferRead b count .done .done).buffer

def drained (b : RingBuffer) (count : Nat) : List UInt8 := (ringBufferRead b count .done .done).out

theorem advance_advance {b : RingBuffer} {m n : Nat} (h : b.tail + (m + n) ≤ b.size + b.size) :
    (b.advance m).advance n = b.advance (m + n) := by
  simp only [advance, RingBuffer.mk.injEq, true_and]
  by_cases hm : b.tail + m ≤ b.size
  · simp only [if_pos hm, Nat.add_assoc]
  · have hback : b.tail + m - b.size + n ≤ b.size := by omega
    have hsum : ¬ b.tail + (m + n) ≤ b.size := by omega
    simp only [if_neg hm, if_pos hback, if_neg hsum]
    omega

section Reads
variable {b : RingBuffer} (hb : b.Stored)
include hb

theorem drain_stored (count : Nat) : (drain b count).Stored :=
  (ringBufferRead_sound hb count .done .done).stored

theorem drain_eq (count : Nat) : drain b count = b.advance (min count (available b)) :=
  ((ringBufferRead_consumed hb count .done .done).done _ (ret_ringBufferRead_done count)).1

theorem available_drain (count : Nat) : available (drain b count) = available b - count := by
  rw [← length_unread (drain_stored hb count), ← length_unread hb, ← List.length_drop]
  exact congrArg List.length (ringBufferRead_unread hb count).2

theorem drain_drain (m n : Nat) : drain (drain b m) n = drain b (m + n) := by
  have ht := hb.tail_le
  have hav := hb.available_le
  rw [drain_eq (drain_stored hb m), available_drain hb, drain_eq hb m, drain_eq hb (m + n)]
  have hsum : min (m + n) (available b) = min m (available b) + min n (available b - m) := by
    omega
  rw [hsum]
  exact advance_advance (by omega)

end Reads

theorem run_drain {b : RingBuffer} (hb : b.Stored) (counts : List Nat) :
    run drain b counts = drain b counts.sum ∧
      (trace drain drained b counts).flatten = b.unread.take counts.sum := by
  induction counts generalizing b with
  | nil =>
    rw [run_nil, List.sum_nil, drain_eq hb, Nat.zero_min, hb.advance_zero]
    exact ⟨rfl, by simp⟩
  | cons count counts ih =>
    obtain ⟨hrun, hout⟩ := ih (drain_stored hb count)
    obtain ⟨hfirst, hrest⟩ := ringBufferRead_unread hb count
    constructor
    · rw [run_cons, hrun, drain_drain hb, List.sum_cons]
    · rw [trace_cons, List.flatten_cons, hout, drained, drain, hfirst, hrest, List.sum_cons,
        List.take_add]

/-- The reads hand out the unread bytes in order until there are none, and leave what one
read of all they asked for leaves. -/
theorem reads_drain_in_order (b : RingBuffer) (hb : b.Stored) (counts : List Nat) :
    (trace drain drained b counts).flatten = b.unread.take (min counts.sum b.unread.length) ∧
      (run drain b counts).unread = b.unread.drop (min counts.sum b.unread.length) ∧
      (run drain b counts).data = b.data ∧ run drain b counts = drain b counts.sum := by
  obtain ⟨hrun, hout⟩ := run_drain hb counts
  rw [← List.take_eq_take_min, ← List.drop_eq_drop_min, hrun]
  exact ⟨hout, (ringBufferRead_unread hb counts.sum).2, by rw [drain_eq hb]; rfl, rfl⟩

/-- Two unread bytes before the end of the array and one after it, read in twos. -/
theorem reads_drain_in_order_around_the_end :
    let b : RingBuffer := ⟨[3, 4, 1, 2], 4, 1, 2⟩
    (trace drain drained b [2, 2]).flatten = b.unread.take (min [2, 2].sum b.unread.length) ∧
      (run drain b [2, 2]).unread = b.unread.drop (min [2, 2].sum b.unread.length) ∧
      (run drain b [2, 2]).data = b.data ∧ run drain b [2, 2] = drain b [2, 2].sum :=
  reads_drain_in_order ⟨[3, 4, 1, 2], 4, 1, 2⟩ ⟨by decide, by decide, rfl, by decide⟩ [2, 2]

end Homework.MouseDriver
