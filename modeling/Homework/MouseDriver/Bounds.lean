import Homework.MouseDriver.RingBuffer

/-!
# The representation invariant of the ring buffer

`head` and `tail` may both rest at `size`: the wrapping branch is taken only when the
bytes do not fit before the end, so an index that lands on the end stays there. The
invariant therefore bounds both indices by `size`, not below it.
-/

namespace Homework.MouseDriver

set_option autoImplicit false

open RingBuffer

@[simp] theorem Access.inBounds_sub (size a b : Nat) : (Access.sub a b).InBounds size ↔ b ≤ a :=
  Iff.rfl

@[simp] theorem Access.inBounds_copy (size offset len : Nat) :
    (Access.copy offset len).InBounds size ↔ offset + len ≤ size := Iff.rfl

/-- The indices lie within an array of `size` bytes; no array in memory has `2 ^ 63`. -/
structure RingBuffer.Stored (b : RingBuffer) : Prop where
  head_le : b.head ≤ b.size
  tail_le : b.tail ≤ b.size
  length_data : b.data.length = b.size
  size_lt : b.size < 2 ^ 63

structure RingBuffer.Valid (b : RingBuffer) : Prop where
  head_le : b.head ≤ b.size
  tail_le : b.tail ≤ b.size
  length_data : b.data.length = b.size
  size_le : (b.size : Int) ≤ intMax

theorem RingBuffer.Valid.stored {b : RingBuffer} (hb : b.Valid) : b.Stored where
  head_le := hb.head_le
  tail_le := hb.tail_le
  length_data := hb.length_data
  size_lt := by
    have hsize := hb.size_le
    unfold intMax at hsize
    omega

structure Outcome.Safe (b : RingBuffer) (o : Outcome) : Prop where
  valid : o.buffer.Valid
  inBounds : ∀ a ∈ o.accesses, a.InBounds b.size

/-- An operation keeps the array in its place or takes a new one of at most 65536 bytes. -/
structure Outcome.Sound (b : RingBuffer) (o : Outcome) : Prop where
  stored : o.buffer.Stored
  size_eq_or : o.buffer.size = b.size ∨ o.buffer.size ≤ 65536
  inBounds : ∀ a ∈ o.accesses, a.InBounds b.size

/-- What a producer can leave in `data`: bytes from `head` on, to the end of the array or to
`tail`, and bytes from the start of the array to `tail`. -/
def RingBuffer.Filled (b : RingBuffer) (data : List UInt8) : Prop :=
  ∃ front back, data = copyInto (copyInto b.data b.head front) 0 back ∧
    b.head + front.length ≤ b.size ∧ back.length ≤ b.tail ∧
    (b.head < b.tail → b.head + front.length ≤ b.tail ∧ back = [])

structure Outcome.Produced (b : RingBuffer) (o : Outcome) : Prop where
  filled : b.Filled o.buffer.data
  size_eq : o.buffer.size = b.size
  tail_eq : o.buffer.tail = b.tail
  head_le : o.buffer.head ≤ b.size
  failed : ∀ e, o.ret = .error e → o.buffer.head = b.head
  inBounds : ∀ a ∈ o.accesses, a.InBounds b.size

/-- `tail` moved by `n` bytes, beyond the end of the array only if there are bytes there. -/
def RingBuffer.advance (b : RingBuffer) (n : Nat) : RingBuffer :=
  { b with tail := if b.tail + n ≤ b.size then b.tail + n else b.tail + n - b.size }

/-- The `n` bytes from `tail` on, around the end of the array if it has fewer. -/
def RingBuffer.front (b : RingBuffer) (n : Nat) : List UInt8 :=
  if b.tail + n ≤ b.size then b.data.extract b.tail (b.tail + n)
  else b.data.extract b.tail b.size ++ b.data.extract 0 (b.tail + n - b.size)

/-- What a consumer of `n` bytes may do: all of it, or nothing. -/
structure Outcome.Consumed (b : RingBuffer) (n : Nat) (o : Outcome) : Prop where
  failed : ∀ e, o.ret = .error e → o.buffer = b
  done : ∀ m, o.ret = .ok m → o.buffer = b.advance n ∧ o.out = b.front n
  inBounds : ∀ a ∈ o.accesses, a.InBounds b.size

namespace RingBuffer.Stored
variable {b : RingBuffer} (hb : b.Stored)
include hb

theorem space_eq : space b =
    if b.tail ≤ b.head then b.size - (b.head - b.tail) else b.tail - b.head - 1 := by
  have hs := hb.size_lt
  obtain ⟨hh, ht, -, -⟩ := hb
  unfold space
  split
  · rw [sizeSub_eq (a := b.head) (by assumption) (by omega), sizeSub_eq (by omega) (by omega)]
  · rw [sizeSub_eq (a := b.tail) (by omega) (by omega), sizeSub_eq (by omega) (by omega)]

theorem available_eq : available b =
    if b.tail ≤ b.head then b.head - b.tail else b.size - b.tail + b.head := by
  have hs := hb.size_lt
  obtain ⟨hh, ht, -, -⟩ := hb
  unfold available
  split
  · rw [sizeSub_eq (by assumption) (by omega)]
  · rw [sizeSub_eq ht (by omega), sizeAdd_eq (by omega)]

theorem space_le : space b ≤ b.size := by
  have ht := hb.tail_le
  rw [hb.space_eq]
  split <;> omega

theorem available_le : available b ≤ b.size := by
  have hh := hb.head_le
  rw [hb.available_eq]
  split <;> omega

theorem spaceAccesses_inBounds : ∀ a ∈ spaceAccesses b, a.InBounds b.size := by
  have hs := hb.size_lt
  obtain ⟨hh, ht, -, -⟩ := hb
  unfold spaceAccesses
  split
  · rw [sizeSub_eq (by assumption) (by omega)]
    simp
    omega
  · rw [sizeSub_eq (by omega) (by omega)]
    simp
    omega

theorem availableAccesses_inBounds : ∀ a ∈ availableAccesses b, a.InBounds b.size := by
  obtain ⟨hh, ht, -, -⟩ := hb
  unfold availableAccesses
  split <;> simpa

theorem sizeAdd_head {n : Nat} (hn : n ≤ space b) : sizeAdd b.head n = b.head + n := by
  have hs := hb.size_lt
  have hh := hb.head_le
  have ht := hb.tail_le
  rw [hb.space_eq] at hn
  exact sizeAdd_eq (by split at hn <;> omega)

theorem sizeAdd_tail {n : Nat} (hn : n ≤ available b) : sizeAdd b.tail n = b.tail + n := by
  have hs := hb.size_lt
  have hh := hb.head_le
  have ht := hb.tail_le
  rw [hb.available_eq] at hn
  exact sizeAdd_eq (by split at hn <;> omega)

/-- The condition for the wrapping branch of a producer says that fewer than `n` bytes are
left before the end, and then the rest fits below `tail`. -/
theorem producer_wrap {n : Nat} (hn : n ≤ space b) (hwrap : ¬ sizeAdd b.head n ≤ b.size) :
    b.size < b.head + n ∧ b.tail ≤ b.head ∧ n - (b.size - b.head) ≤ b.tail ∧
      sizeSub b.size b.head = b.size - b.head ∧
      sizeSub n (b.size - b.head) = n - (b.size - b.head) := by
  have hs := hb.size_lt
  have hh := hb.head_le
  have ht := hb.tail_le
  rw [hb.sizeAdd_head hn] at hwrap
  rw [hb.space_eq] at hn
  have hbranch : b.tail ≤ b.head := by
    by_contra hlt
    rw [if_neg hlt] at hn
    omega
  rw [if_pos hbranch] at hn
  exact ⟨by omega, hbranch, by omega, sizeSub_eq hh (by omega), sizeSub_eq (by omega) (by omega)⟩

theorem producer_fit {n : Nat} (hn : n ≤ space b) (hfit : sizeAdd b.head n ≤ b.size) :
    sizeAdd b.head n = b.head + n ∧ b.head + n ≤ b.size := by
  have hsum := hb.sizeAdd_head hn
  exact ⟨hsum, hsum ▸ hfit⟩

theorem consumer_wrap {n : Nat} (hn : n ≤ available b) (hwrap : ¬ sizeAdd b.tail n ≤ b.size) :
    b.size < b.tail + n ∧ b.head < b.tail ∧ n - (b.size - b.tail) ≤ b.head ∧
      sizeSub b.size b.tail = b.size - b.tail ∧
      sizeSub n (b.size - b.tail) = n - (b.size - b.tail) := by
  have hs := hb.size_lt
  have hh := hb.head_le
  have ht := hb.tail_le
  rw [hb.sizeAdd_tail hn] at hwrap
  rw [hb.available_eq] at hn
  have hbranch : ¬ b.tail ≤ b.head := by
    intro hle
    rw [if_pos hle] at hn
    omega
  rw [if_neg hbranch] at hn
  exact ⟨by omega, by omega, by omega, sizeSub_eq ht (by omega), sizeSub_eq (by omega) (by omega)⟩

theorem consumer_fit {n : Nat} (hn : n ≤ available b) (hfit : sizeAdd b.tail n ≤ b.size) :
    sizeAdd b.tail n = b.tail + n ∧ b.tail + n ≤ b.size := by
  have hsum := hb.sizeAdd_tail hn
  exact ⟨hsum, hsum ▸ hfit⟩

theorem filled_self : b.Filled b.data :=
  ⟨[], [], by simp, hb.head_le, Nat.zero_le _, fun h => ⟨Nat.le_of_lt h, rfl⟩⟩

theorem filled_front {n : Nat} {front : List UInt8} (hn : n ≤ space b) (hin : b.head + n ≤ b.size)
    (hfront : front.length ≤ n) : b.Filled (copyInto b.data b.head front) := by
  rw [hb.space_eq] at hn
  refine ⟨front, [], by simp, by omega, Nat.zero_le _, fun hlt => ⟨?_, rfl⟩⟩
  rw [if_neg (by omega)] at hn
  omega

theorem advance_zero : b.advance 0 = b := by
  rw [advance, Nat.add_zero, if_pos hb.tail_le]

theorem advance_stored {n : Nat} (hn : n ≤ b.size) : (b.advance n).Stored := by
  refine ⟨hb.head_le, ?_, hb.length_data, hb.size_lt⟩
  have ht := hb.tail_le
  unfold advance
  dsimp only
  split <;> omega

theorem length_filled {data : List UInt8} (h : b.Filled data) : data.length = b.size := by
  have hh := hb.head_le
  have ht := hb.tail_le
  have hlength := hb.length_data
  obtain ⟨front, back, rfl, hfront, hback, -⟩ := h
  have hlen : (copyInto b.data b.head front).length = b.size := by
    rw [length_copyInto (by omega), hlength]
  rw [length_copyInto (by omega), hlen]

end RingBuffer.Stored

theorem filled_around {b : RingBuffer} {front back : List UInt8} (hht : b.tail ≤ b.head)
    (hfront : b.head + front.length ≤ b.size) (hback : back.length ≤ b.tail) :
    b.Filled (copyInto (copyInto b.data b.head front) 0 back) :=
  ⟨front, back, rfl, hfront, hback, fun hlt => absurd hht (Nat.not_le.mpr hlt)⟩

theorem copyFromUser_ok {data bytes d : List UInt8} {offset : Nat} {c : Copy}
    (h : copyFromUser data offset bytes c = .ok d) : d = copyInto data offset bytes := by
  cases c with
  | done =>
    cases h
    rfl
  | fault junk => cases h

theorem copyFromUser_error {data bytes d : List UInt8} {offset : Nat} {c : Copy}
    (h : copyFromUser data offset bytes c = .error d) :
    ∃ junk, junk.length ≤ bytes.length ∧ d = copyInto data offset junk := by
  cases c with
  | done => cases h
  | fault junk =>
    cases h
    exact ⟨junk.take bytes.length, List.length_take_le _ _, rfl⟩

theorem Outcome.Produced.sound {b : RingBuffer} (hb : b.Stored) {o : Outcome}
    (h : o.Produced b) : o.Sound b := by
  refine ⟨⟨?_, ?_, ?_, ?_⟩, Or.inl h.size_eq, h.inBounds⟩
  · rw [h.size_eq]
    exact h.head_le
  · rw [h.size_eq, h.tail_eq]
    exact hb.tail_le
  · rw [h.size_eq]
    exact hb.length_filled h.filled
  · rw [h.size_eq]
    exact hb.size_lt

/-- A buffer gets a new size only when it is empty; it is left as it is otherwise. -/
theorem bufferSizeStore_cases (k : Kernel) (b : RingBuffer) (buf : List UInt8)
    (mem : Option (Nat → UInt8)) :
    (∃ e, bufferSizeStore k b buf mem =
        { buffer := b, ret := .error e, out := [], accesses := [] }) ∨
      b.head = b.tail ∧ ∃ newSize newData, newSize ≤ 65536 ∧ newData.length = newSize ∧
        bufferSizeStore k b buf mem =
          { buffer := { data := newData, size := newSize, head := 0, tail := 0 }
            ret := .ok buf.length, out := [], accesses := [] } := by
  unfold bufferSizeStore
  simp only
  split
  · exact Or.inl ⟨_, rfl⟩
  rename_i newSize _
  split
  · exact Or.inl ⟨_, rfl⟩
  split
  · exact Or.inl ⟨_, rfl⟩
  rename_i newData halloc
  split
  · exact Or.inl ⟨_, rfl⟩
  · rename_i hempty
    obtain ⟨contents, -, rfl⟩ := Option.map_eq_some_iff.mp halloc
    exact Or.inr ⟨not_not.mp hempty, newSize, _, by omega, by simp, rfl⟩

section Operations
variable {b : RingBuffer} (hb : b.Stored)
include hb

theorem ringBufferWrite_produced (user : List UInt8) (first second : Copy) :
    (ringBufferWrite b user first second).Produced b := by
  have hacc := hb.spaceAccesses_inBounds
  have hh := hb.head_le
  have ht := hb.tail_le
  have hle : min user.length (space b) ≤ space b := Nat.min_le_right _ _
  unfold ringBufferWrite
  simp only
  generalize min user.length (space b) = n at hle ⊢
  split
  · exact ⟨hb.filled_self, rfl, rfl, hh, fun _ _ => rfl, hacc⟩
  split
  · rename_i hfit
    obtain ⟨hsum, hin⟩ := hb.producer_fit hle hfit
    have htake : (user.take n).length ≤ n := List.length_take_le _ _
    have hcopy : ∀ a ∈ spaceAccesses b ++ [.copy b.head n], a.InBounds b.size :=
      List.forall_mem_append.mpr ⟨hacc, by simpa using hin⟩
    split <;> rename_i hc
    · obtain ⟨junk, hjunk, rfl⟩ := copyFromUser_error hc
      exact ⟨hb.filled_front hle hin (hjunk.trans htake), rfl, rfl, hh, fun _ _ => rfl, hcopy⟩
    · cases copyFromUser_ok hc
      exact ⟨hb.filled_front hle hin htake, rfl, rfl, by simpa only [hsum] using hin,
        (fun _ he => nomatch he), hcopy⟩
  · rename_i hwrap
    obtain ⟨hgt, hht, hrest, hsub, hsub'⟩ := hb.producer_wrap hle hwrap
    rw [hsub, hsub']
    have htake : (user.take (b.size - b.head)).length ≤ b.size - b.head := List.length_take_le _ _
    have htake' : ((user.drop (b.size - b.head)).take (n - (b.size - b.head))).length ≤
        n - (b.size - b.head) := List.length_take_le _ _
    have hcopy : ∀ a ∈ spaceAccesses b ++
        [.sub b.size b.head, .copy b.head (b.size - b.head)], a.InBounds b.size :=
      List.forall_mem_append.mpr ⟨hacc, by simp; omega⟩
    split <;> rename_i hc
    · obtain ⟨junk, hjunk, rfl⟩ := copyFromUser_error hc
      have hfilled := @filled_around b junk [] hht (by omega) (Nat.zero_le _)
      rw [copyInto_nil] at hfilled
      exact ⟨hfilled, rfl, rfl, hh, fun _ _ => rfl, hcopy⟩
    cases copyFromUser_ok hc
    have hlast : ∀ a ∈ [Access.sub n (b.size - b.head), Access.copy 0 (n - (b.size - b.head))],
        a.InBounds b.size := by
      simp
      omega
    have hcopy' := List.forall_mem_append.mpr ⟨hcopy, hlast⟩
    split <;> rename_i hc'
    · obtain ⟨junk, hjunk, rfl⟩ := copyFromUser_error hc'
      exact ⟨filled_around hht (by omega) (by omega), rfl, rfl, hh, fun _ _ => rfl, hcopy'⟩
    · cases copyFromUser_ok hc'
      exact ⟨filled_around hht (by omega) (by omega), rfl, rfl, hrest.trans ht,
        (fun _ he => nomatch he), hcopy'⟩

theorem ringBufferRead_consumed (count : Nat) (first second : Copy) :
    (ringBufferRead b count first second).Consumed b (min count (available b)) := by
  have hacc := hb.availableAccesses_inBounds
  have hh := hb.head_le
  have ht := hb.tail_le
  have hle : min count (available b) ≤ available b := Nat.min_le_right _ _
  unfold ringBufferRead
  simp only
  generalize min count (available b) = n at hle ⊢
  split
  · rename_i hzero
    subst hzero
    refine ⟨fun _ _ => rfl, fun _ _ => ⟨hb.advance_zero.symm, ?_⟩, hacc⟩
    rw [front, Nat.add_zero, if_pos ht]
    simp
  split
  · rename_i hfit
    obtain ⟨hsum, hin⟩ := hb.consumer_fit hle hfit
    have hcopy : ∀ a ∈ availableAccesses b ++ [.copy b.tail n], a.InBounds b.size :=
      List.forall_mem_append.mpr ⟨hacc, by simpa using hin⟩
    cases first with
    | fault _ => exact ⟨fun _ _ => rfl, (fun _ hm => nomatch hm), hcopy⟩
    | done =>
      refine ⟨(fun _ he => nomatch he), fun _ _ => ⟨?_, ?_⟩, hcopy⟩
      · rw [advance, hsum, if_pos hin]
      · rw [front, if_pos hin]
  · rename_i hwrap
    obtain ⟨hgt, -, hrest, hsub, hsub'⟩ := hb.consumer_wrap hle hwrap
    rw [hsub, hsub']
    have hcopy : ∀ a ∈ availableAccesses b ++
        [.sub b.size b.tail, .copy b.tail (b.size - b.tail)], a.InBounds b.size :=
      List.forall_mem_append.mpr ⟨hacc, by simp; omega⟩
    have hlast : ∀ a ∈ [Access.sub n (b.size - b.tail), Access.copy 0 (n - (b.size - b.tail))],
        a.InBounds b.size := by
      simp
      omega
    have hcopy' := List.forall_mem_append.mpr ⟨hcopy, hlast⟩
    have hend : b.tail + (b.size - b.tail) = b.size := by omega
    have hover : n - (b.size - b.tail) = b.tail + n - b.size := by omega
    cases first with
    | fault _ => exact ⟨fun _ _ => rfl, (fun _ hm => nomatch hm), hcopy⟩
    | done =>
      cases second with
      | fault _ => exact ⟨fun _ _ => rfl, (fun _ hm => nomatch hm), hcopy'⟩
      | done =>
        refine ⟨(fun _ he => nomatch he), fun _ _ => ⟨?_, ?_⟩, hcopy'⟩
        · rw [advance, if_neg (Nat.not_le.mpr hgt), hover]
        · rw [front, if_neg (Nat.not_le.mpr hgt), hend, hover]

theorem ringBufferRead_sound (count : Nat) (first second : Copy) :
    (ringBufferRead b count first second).Sound b := by
  have hconsumed := ringBufferRead_consumed hb count first second
  cases hret : (ringBufferRead b count first second).ret with
  | error e =>
    have hbuffer := hconsumed.failed e hret
    refine ⟨?_, Or.inl ?_, hconsumed.inBounds⟩ <;> rw [hbuffer]
    exact hb
  | ok m =>
    have hbuffer := (hconsumed.done m hret).1
    have hle : min count (available b) ≤ b.size := (Nat.min_le_right _ _).trans hb.available_le
    refine ⟨?_, Or.inl ?_, hconsumed.inBounds⟩ <;> rw [hbuffer]
    · exact hb.advance_stored hle
    · rfl

theorem simulateMouseData_produced (event : List UInt8) :
    (simulateMouseData b event).Produced b := by
  have hacc := hb.spaceAccesses_inBounds
  have hh := hb.head_le
  have ht := hb.tail_le
  unfold simulateMouseData
  split
  · rename_i hle
    split
    · rename_i hfit
      obtain ⟨hsum, hin⟩ := hb.producer_fit hle hfit
      exact ⟨hb.filled_front hle hin (Nat.le_refl _), rfl, rfl, by simpa only [hsum] using hin,
        (fun _ he => nomatch he), List.forall_mem_append.mpr ⟨hacc, by simpa using hin⟩⟩
    · rename_i hwrap
      obtain ⟨hgt, hht, hrest, hsub, hsub'⟩ := hb.producer_wrap hle hwrap
      simp only [hsub, hsub']
      have htake : (event.take (b.size - b.head)).length ≤ b.size - b.head :=
        List.length_take_le _ _
      have htake' : ((event.drop (b.size - b.head)).take
          (event.length - (b.size - b.head))).length ≤ event.length - (b.size - b.head) :=
        List.length_take_le _ _
      exact ⟨filled_around hht (by omega) (by omega), rfl, rfl, hrest.trans ht,
        (fun _ he => nomatch he), List.forall_mem_append.mpr ⟨hacc, by simp; omega⟩⟩
  · exact ⟨hb.filled_self, rfl, rfl, hh, fun _ _ => rfl, hacc⟩

theorem bufferSizeStore_sound (k : Kernel) (buf : List UInt8) (mem : Option (Nat → UInt8)) :
    (bufferSizeStore k b buf mem).Sound b := by
  rcases bufferSizeStore_cases k b buf mem with
    ⟨e, hfail⟩ | ⟨-, newSize, newData, hsize, hlen, hresize⟩
  · rw [hfail]
    exact ⟨hb, Or.inl rfl, by simp⟩
  · rw [hresize]
    have hlt : newSize < 2 ^ 63 := Nat.lt_of_le_of_lt hsize (by decide)
    exact ⟨⟨Nat.zero_le _, Nat.zero_le _, hlen, hlt⟩, Or.inr hsize, by simp⟩

theorem clearBufferStore_sound (k : Kernel) (buf : List UInt8) :
    (clearBufferStore k b buf).Sound b := by
  unfold clearBufferStore
  split
  · exact ⟨⟨Nat.zero_le _, Nat.zero_le _, hb.length_data, hb.size_lt⟩, Or.inl rfl, by simp⟩
  · exact ⟨hb, Or.inl rfl, by simp⟩

theorem perform_sound (k : Kernel) (op : Op) : (perform k b op).Sound b := by
  cases op with
  | write user first second => exact (ringBufferWrite_produced hb user first second).sound hb
  | read count first second => exact ringBufferRead_sound hb count first second
  | simulate event => exact (simulateMouseData_produced hb event).sound hb
  | resize buf mem => exact bufferSizeStore_sound hb k buf mem
  | clear buf => exact clearBufferStore_sound hb k buf

theorem step_stored (k : Kernel) (op : Op) : (step k b op).Stored := (perform_sound hb k op).stored

end Operations

theorem perform_safe {b : RingBuffer} (hb : b.Valid) (k : Kernel) (op : Op) :
    (perform k b op).Safe b := by
  obtain ⟨hstored, hsize, hacc⟩ := perform_sound hb.stored k op
  refine ⟨⟨hstored.head_le, hstored.tail_le, hstored.length_data, ?_⟩, hacc⟩
  rcases hsize with heq | hle
  · rw [heq]
    exact hb.size_le
  · unfold intMax
    omega

theorem step_valid {b : RingBuffer} (hb : b.Valid) (k : Kernel) (op : Op) : (step k b op).Valid :=
  (perform_safe hb k op).valid

theorem ringBufferInit_eq {size : Nat} {mem : Option (Nat → UInt8)} {b : RingBuffer}
    (hinit : ringBufferInit size mem = .ok b) :
    ∃ data, data.length = size ∧ b = { data, size, head := 0, tail := 0 } := by
  unfold ringBufferInit at hinit
  split at hinit
  · cases hinit
  · rename_i data halloc
    obtain ⟨contents, -, rfl⟩ := Option.map_eq_some_iff.mp halloc
    cases hinit
    exact ⟨_, by simp, rfl⟩

theorem ringBufferInit_stored {size : Nat} (hsize : size < 2 ^ 63) {mem : Option (Nat → UInt8)}
    {b : RingBuffer} (hinit : ringBufferInit size mem = .ok b) : b.Stored := by
  obtain ⟨data, hlength, rfl⟩ := ringBufferInit_eq hinit
  exact ⟨Nat.zero_le _, Nat.zero_le _, hlength, hsize⟩

theorem run_stored (k : Kernel) {b : RingBuffer} (hb : b.Stored) (ops : List Op) :
    (run (step k) b ops).Stored :=
  run_invariant_all Stored (fun _ op h => step_stored h k op) hb ops

theorem ringBufferInit_valid {size : Nat} (hsize : (size : Int) ≤ intMax)
    {mem : Option (Nat → UInt8)} {b : RingBuffer} (hinit : ringBufferInit size mem = .ok b) :
    b.Valid := by
  obtain ⟨data, hlength, rfl⟩ := ringBufferInit_eq hinit
  exact ⟨Nat.zero_le _, Nat.zero_le _, hlength, hsize⟩

theorem run_valid (k : Kernel) {b : RingBuffer} (hb : b.Valid) (ops : List Op) :
    (run (step k) b ops).Valid :=
  run_invariant_all Valid (fun _ op h => step_valid h k op) hb ops

/-- From any size the module accepts, every reachable buffer keeps its indices within
`size` and `size` bytes of data, and whatever operation comes next takes no negative
difference and copies no byte outside the data. -/
theorem ring_buffer_stays_in_bounds (k : Kernel) (bufferSize : Nat)
    (hsize : (bufferSize : Int) ≤ intMax) (mem : Option (Nat → UInt8)) (b₀ : RingBuffer)
    (hinit : ringBufferInit bufferSize mem = .ok b₀) (ops : List Op) :
    let b := run (step k) b₀ ops
    b.head ≤ b.size ∧ b.tail ≤ b.size ∧ b.data.length = b.size ∧
      ∀ op, ∀ a ∈ (perform k b op).accesses, a.InBounds b.size := by
  have hv := run_valid k (ringBufferInit_valid hsize hinit) ops
  exact ⟨hv.head_le, hv.tail_le, hv.length_data, fun op => (perform_safe hv k op).inBounds⟩

theorem ring_buffer_stays_in_bounds_default :
    let b := run (step ⟨fun _ => none, fun _ => none⟩)
      ⟨(List.range 4096).map fun _ => 0, 4096, 0, 0⟩ [.write [1, 2] .done .done, .clear []]
    b.head ≤ b.size ∧ b.tail ≤ b.size ∧ b.data.length = b.size ∧
      ∀ op, ∀ a ∈ (perform ⟨fun _ => none, fun _ => none⟩ b op).accesses, a.InBounds b.size :=
  ring_buffer_stays_in_bounds ⟨fun _ => none, fun _ => none⟩ 4096 (by decide)
    (some fun _ => 0) _ rfl [.write [1, 2] .done .done, .clear []]

end Homework.MouseDriver
