import Homework.MouseDriver.Fifo

/-!
# Unread bytes are never overwritten

A producer writes its bytes to the cells from `head` on, around the end of `data` where
they do not fit before it. What is unread lies below these cells or above them in every
layout, so even a copy that fails half-way leaves the queue as it was; the index moves
only after the last copy.
-/

namespace Homework.MouseDriver

set_option autoImplicit false

open RingBuffer

/-- A cell of `data` that holds an unread byte. -/
def RingBuffer.UnreadCell (b : RingBuffer) (i : Nat) : Prop :=
  if b.tail ≤ b.head then b.tail ≤ i ∧ i < b.head
  else b.tail ≤ i ∧ i < b.size ∨ i < b.head

structure Outcome.Keeps (b : RingBuffer) (o : Outcome) : Prop where
  cells : ∀ i, b.UnreadCell i → o.buffer.data[i]? = b.data[i]?
  failed : ∀ e, o.ret = .error e →
    o.buffer.head = b.head ∧ o.buffer.tail = b.tail ∧ o.buffer.unread = b.unread

theorem unread_congr {b b' : RingBuffer} (hhead : b'.head = b.head) (htail : b'.tail = b.tail)
    (hsize : b'.size = b.size) (hcells : ∀ i, b.UnreadCell i → b'.data[i]? = b.data[i]?) :
    b'.unread = b.unread := by
  unfold UnreadCell at hcells
  unfold unread
  rw [hhead, htail, hsize]
  split
  · rename_i hht
    simp only [if_pos hht] at hcells
    exact extract_congr fun i hlo hhi => hcells i ⟨hlo, hhi⟩
  · rename_i hht
    simp only [if_neg hht] at hcells
    have hback : b'.data.extract b.tail b.size = b.data.extract b.tail b.size :=
      extract_congr fun i hlo hhi => hcells i (Or.inl ⟨hlo, hhi⟩)
    have hfront : b'.data.extract 0 b.head = b.data.extract 0 b.head :=
      extract_congr fun i _ hhi => hcells i (Or.inr hhi)
    rw [hback, hfront]

theorem getElem?_of_filled {b : RingBuffer} (hb : b.Stored) {data : List UInt8}
    (h : b.Filled data) {i : Nat} (hi : b.UnreadCell i) : data[i]? = b.data[i]? := by
  have ht := hb.tail_le
  have hlength := hb.length_data
  obtain ⟨front, back, rfl, hfront, hback, hwrapped⟩ := h
  have hlen : (copyInto b.data b.head front).length = b.size := by
    rw [length_copyInto (by omega), hlength]
  unfold UnreadCell at hi
  split at hi
  · rw [getElem?_copyInto (by omega), if_neg (by omega), getElem?_copyInto (by omega),
      if_neg (by omega)]
  · rename_i hht
    obtain ⟨hbelow, rfl⟩ := hwrapped (Nat.not_le.mp hht)
    rw [copyInto_nil, getElem?_copyInto (by omega), if_neg (by omega)]

theorem Outcome.Produced.keeps {b : RingBuffer} (hb : b.Stored) {o : Outcome}
    (h : o.Produced b) : o.Keeps b := by
  have hcells : ∀ i, b.UnreadCell i → o.buffer.data[i]? = b.data[i]? :=
    fun i hi => getElem?_of_filled hb h.filled hi
  refine ⟨hcells, fun e he => ?_⟩
  have hhead := h.failed e he
  exact ⟨hhead, h.tail_eq, unread_congr hhead h.tail_eq h.size_eq hcells⟩

/-- Writing and generating data keep every unread byte in its cell, and a call that fails
keeps the queue; a read that fails changes nothing at all. -/
theorem failed_calls_keep_unread (b : RingBuffer) (hb : b.Stored) :
    (∀ user first second, (ringBufferWrite b user first second).Keeps b) ∧
      (∀ event, (simulateMouseData b event).Keeps b) ∧
      ∀ count first second e, (ringBufferRead b count first second).ret = .error e →
        (ringBufferRead b count first second).buffer = b :=
  ⟨fun user first second => (ringBufferWrite_produced hb user first second).keeps hb,
    fun event => (simulateMouseData_produced hb event).keeps hb,
    fun count first second e => (ringBufferRead_consumed hb count first second).failed e⟩

/-- A full buffer of four bytes whose indices rest at its end and in its middle. -/
theorem failed_calls_keep_unread_when_full :
    let b : RingBuffer := ⟨[3, 4, 1, 2], 4, 1, 2⟩
    (∀ user first second, (ringBufferWrite b user first second).Keeps b) ∧
      (∀ event, (simulateMouseData b event).Keeps b) ∧
      ∀ count first second e, (ringBufferRead b count first second).ret = .error e →
        (ringBufferRead b count first second).buffer = b :=
  failed_calls_keep_unread ⟨[3, 4, 1, 2], 4, 1, 2⟩ ⟨by decide, by decide, rfl, by decide⟩

end Homework.MouseDriver
