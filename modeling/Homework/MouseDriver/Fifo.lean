import Homework.MouseDriver.Bounds

/-!
# The ring buffer as a queue

`unread` is the queue a buffer stands for. Reads take from its front and producers append
to its end, with one exception: while `tail ≤ head`, the code offers all of
`size - (head - tail)` bytes, and a producer that wraps and takes them all stops with
`head` on `tail`, which every reader takes for an empty buffer. The other layout keeps one
byte free (`tail - head - 1`), as `buffer_status_show` reports it for both.
-/

namespace Homework.MouseDriver

set_option autoImplicit false

open RingBuffer

/-- The bytes from `tail` to `head`, around the end of `data` when `head` is below `tail`. -/
def RingBuffer.unread (b : RingBuffer) : List UInt8 :=
  if b.tail ≤ b.head then b.data.extract b.tail b.head
  else b.data.extract b.tail b.size ++ b.data.extract 0 b.head

def accepted (k : Kernel) (b : RingBuffer) : Op → List UInt8
  | .write user first second =>
    match (perform k b (.write user first second)).ret with
    | .ok n => user.take n
    | .error _ => []
  | .simulate event => if event.length ≤ space b then event else []
  | _ => []

def delivered (k : Kernel) (b : RingBuffer) (op : Op) : List UInt8 := (perform k b op).out

def Op.FaultFree : Op → Prop
  | .write _ first second => first = .done ∧ second = .done
  | .read _ first second => first = .done ∧ second = .done
  | .simulate _ => True
  | .resize _ _ => True
  | .clear _ => False

/-- With `0 < tail ≤ head`, a producer fills every byte that is not unread. -/
def Overruns (b : RingBuffer) : Op → Prop
  | .write user _ _ =>
    0 < b.tail ∧ b.tail ≤ b.head ∧ b.size - (b.head - b.tail) ≤ user.length
  | .simulate event =>
    0 < b.tail ∧ b.tail ≤ b.head ∧ event.length = b.size - (b.head - b.tail)
  | _ => False

/-- In every state of the run the bytes handed out, followed by the unread ones, are the
bytes taken in; and a producer that has just taken bytes leaves the buffer nonempty. -/
def IsFifo (k : Kernel) (b : RingBuffer) (ops : List Op) : Prop :=
  (∀ done, done <+: ops → (trace (step k) (delivered k) b done).flatten ++
      (run (step k) b done).unread = (trace (step k) (accepted k) b done).flatten) ∧
    Along (step k) (fun b op => accepted k b op ≠ [] → available (step k b op) ≠ 0) b ops

section Unread
variable {b : RingBuffer} (hb : b.Stored)
include hb

theorem length_unread : b.unread.length = available b := by
  have hh := hb.head_le
  have ht := hb.tail_le
  rw [hb.available_eq]
  unfold unread
  split <;> simp [hb.length_data] <;> omega

theorem front_eq {n : Nat} (hn : n ≤ available b) : b.front n = b.unread.take n := by
  have hh := hb.head_le
  have ht := hb.tail_le
  have hlength := hb.length_data
  rw [hb.available_eq] at hn
  unfold front unread
  by_cases hht : b.tail ≤ b.head
  · rw [if_pos hht] at hn ⊢
    rw [if_pos (by omega), take_extract, Nat.min_eq_right (by omega)]
  · rw [if_neg hht] at hn ⊢
    have hlen : (b.data.extract b.tail b.size).length = b.size - b.tail := by
      simp [hlength]
    rw [List.take_append, hlen, take_extract, take_extract]
    split
    · have hnone : n - (b.size - b.tail) = 0 := by omega
      rw [Nat.min_eq_right (by assumption), hnone]
      simp
    · have hover : n - (b.size - b.tail) = b.tail + n - b.size := by omega
      rw [Nat.min_eq_left (by omega), Nat.zero_add, hover, Nat.min_eq_right (by omega)]

theorem unread_advance {n : Nat} (hn : n ≤ available b) :
    (b.advance n).unread = b.unread.drop n := by
  have hh := hb.head_le
  have ht := hb.tail_le
  have hlength := hb.length_data
  rw [hb.available_eq] at hn
  unfold advance unread
  dsimp only
  by_cases hht : b.tail ≤ b.head
  · rw [if_pos hht] at hn ⊢
    have hin : b.tail + n ≤ b.size := by omega
    simp only [if_pos hin]
    rw [if_pos (by omega), drop_extract]
  · rw [if_neg hht] at hn ⊢
    have hlen : (b.data.extract b.tail b.size).length = b.size - b.tail := by
      simp [hlength]
    rw [List.drop_append, hlen, drop_extract, drop_extract]
    by_cases hin : b.tail + n ≤ b.size
    · have hnone : n - (b.size - b.tail) = 0 := by omega
      simp only [if_pos hin]
      rw [if_neg (by omega), hnone, Nat.add_zero]
    · have hover : n - (b.size - b.tail) = b.tail + n - b.size := by omega
      have hgone : b.data.extract (b.tail + n) b.size = [] := by
        rw [List.extract_eq_take_drop]
        simp
        omega
      simp only [if_neg hin]
      rw [if_pos (by omega), hgone, List.nil_append, Nat.zero_add, hover]

omit hb in
theorem ret_ringBufferRead_done (count : Nat) :
    (ringBufferRead b count .done .done).ret = .ok (min count (available b)) := by
  unfold ringBufferRead
  simp only
  split
  · rename_i hzero
    rw [hzero]
  · split <;> rfl

theorem ringBufferRead_unread (count : Nat) :
    (ringBufferRead b count .done .done).out = b.unread.take count ∧
      (ringBufferRead b count .done .done).buffer.unread = b.unread.drop count := by
  have hle : min count (available b) ≤ available b := Nat.min_le_right _ _
  obtain ⟨hbuffer, hout⟩ := (ringBufferRead_consumed hb count .done .done).done _
    (ret_ringBufferRead_done count)
  rw [List.take_eq_take_min, List.drop_eq_drop_min, length_unread hb, hbuffer, hout]
  exact ⟨front_eq hb hle, unread_advance hb hle⟩

theorem unread_append_straight {bytes : List UInt8} (hle : bytes.length ≤ space b)
    (hin : b.head + bytes.length ≤ b.size) :
    RingBuffer.unread { b with
      data := copyInto b.data b.head bytes, head := b.head + bytes.length } =
      b.unread ++ bytes := by
  have ht := hb.tail_le
  have hspace := hb.space_eq
  have hdata := hb.length_data
  have hcopy : b.head + bytes.length ≤ b.data.length := by omega
  simp only [unread]
  by_cases hht : b.tail ≤ b.head
  · rw [if_pos hht, if_pos (by omega), ← extract_append_extract hht (Nat.le_add_right _ _),
      extract_copyInto_before hcopy (Nat.le_refl _), extract_copyInto_self hcopy]
  · rw [if_neg hht] at hspace
    rw [if_neg hht, if_neg (by omega), extract_copyInto_after hcopy (by omega),
      ← extract_append_extract (Nat.zero_le b.head) (Nat.le_add_right _ _),
      extract_copyInto_before hcopy (Nat.le_refl _), extract_copyInto_self hcopy,
      List.append_assoc]

/-- The second part stops below `tail`: stopping on it is the overrun. -/
theorem unread_append_around {first second : List UInt8} (hht : b.tail ≤ b.head)
    (hfirst : b.head + first.length = b.size) (hbelow : second.length < b.tail) :
    RingBuffer.unread { b with
      data := copyInto (copyInto b.data b.head first) 0 second, head := second.length } =
      b.unread ++ (first ++ second) := by
  have hh := hb.head_le
  have hdata := hb.length_data
  have hcopy : b.head + first.length ≤ b.data.length := by omega
  have hcopy' : 0 + second.length ≤ (copyInto b.data b.head first).length := by
    rw [length_copyInto hcopy]
    omega
  have hself := extract_copyInto_self hcopy
  rw [hfirst] at hself
  have hself' := extract_copyInto_self hcopy'
  rw [Nat.zero_add] at hself'
  simp only [unread]
  rw [if_pos hht, if_neg (by omega), hself', extract_copyInto_after hcopy' (by omega),
    ← extract_append_extract hht hh, extract_copyInto_before hcopy (Nat.le_refl _), hself,
    List.append_assoc]

theorem simulateMouseData_unread {event : List UInt8} (hle : event.length ≤ space b)
    (hno : ¬ Overruns b (.simulate event)) :
    (simulateMouseData b event).buffer.unread = b.unread ++ event := by
  have hh := hb.head_le
  have hspace := hb.space_eq
  simp only [Overruns, not_and] at hno
  unfold simulateMouseData
  rw [if_pos hle]
  split
  · rename_i hfit
    obtain ⟨hsum, hin⟩ := hb.producer_fit hle hfit
    rw [hsum]
    exact unread_append_straight hb hle hin
  · rename_i hwrap
    obtain ⟨hgt, hht, hrest, hsub, hsub'⟩ := hb.producer_wrap hle hwrap
    rw [if_pos hht] at hspace
    have hbelow : event.length - (b.size - b.head) < b.tail := by
      have := hno (by omega) hht
      omega
    have hfirst : b.head + (event.take (b.size - b.head)).length = b.size := by
      rw [List.length_take]
      omega
    have hlength : (event.drop (b.size - b.head)).length = event.length - (b.size - b.head) :=
      List.length_drop
    have hsecond : (event.drop (b.size - b.head)).take (event.length - (b.size - b.head)) =
        event.drop (b.size - b.head) := List.take_of_length_le (Nat.le_of_eq hlength)
    have haround := unread_append_around hb hht hfirst (by rw [hlength]; exact hbelow)
    rw [hlength, List.take_append_drop] at haround
    dsimp only
    rw [hsub, hsub', hsecond]
    exact haround

theorem simulateMouseData_overrun {event : List UInt8} (hover : Overruns b (.simulate event)) :
    (simulateMouseData b event).buffer.unread = [] := by
  obtain ⟨hpos, hht, hlen⟩ := hover
  have hh := hb.head_le
  have hspace := hb.space_eq
  rw [if_pos hht] at hspace
  have hle : event.length ≤ space b := by omega
  have hsum : sizeAdd b.head event.length = b.head + event.length := by
    have := hb.size_lt
    have := hb.tail_le
    exact sizeAdd_eq (by omega)
  have hwrap : ¬ sizeAdd b.head event.length ≤ b.size := by omega
  obtain ⟨-, -, -, hsub, hsub'⟩ := hb.producer_wrap hle hwrap
  unfold simulateMouseData
  rw [if_pos hle, if_neg hwrap]
  have hontail : event.length - (b.size - b.head) = b.tail := by omega
  dsimp only
  rw [hsub, hsub', hontail]
  simp [unread]

/-- Without a copy fault `ring_buffer_write` stores what it can of `user` the way
`simulate_mouse_data` stores a whole event. -/
theorem ringBufferWrite_done (user : List UInt8) :
    (ringBufferWrite b user .done .done).buffer =
      (simulateMouseData b (user.take (min user.length (space b)))).buffer := by
  have hle : min user.length (space b) ≤ space b := Nat.min_le_right _ _
  unfold ringBufferWrite simulateMouseData
  simp only [List.length_take]
  generalize hn : min user.length (space b) = n at hle ⊢
  have hlen : min n user.length = n := by omega
  rw [hlen, if_pos hle]
  split
  · rename_i hzero
    have hfit : sizeAdd b.head n ≤ b.size := by
      rw [hzero, sizeAdd_eq] <;> have := hb.head_le <;> have := hb.size_lt <;> omega
    rw [if_pos hfit, hzero, sizeAdd_eq]
    · simp
    · have := hb.head_le
      have := hb.size_lt
      omega
  split
  · rfl
  · rename_i hwrap
    obtain ⟨hgt, -, -, hsub, hsub'⟩ := hb.producer_wrap hle hwrap
    have hfirst : min (b.size - b.head) n = b.size - b.head := by omega
    simp only [copyFromUser, hsub, hsub', List.take_take, List.drop_take, hfirst, Nat.min_self]

theorem producer_conserves_iff {event : List UInt8} (hle : event.length ≤ space b) :
    b.unread ++ event = (simulateMouseData b event).buffer.unread ↔
      ¬ Overruns b (.simulate event) := by
  constructor
  · intro heq hover
    rw [simulateMouseData_overrun hb hover, List.append_eq_nil_iff] at heq
    obtain ⟨hpos, hht, hlen⟩ := hover
    have hh := hb.head_le
    have hspace := hb.space_eq
    rw [if_pos hht] at hspace
    rw [heq.2, List.length_nil] at hlen
    omega
  · intro hno
    exact (simulateMouseData_unread hb hle hno).symm

end Unread

theorem bufferSizeStore_unread (k : Kernel) (b : RingBuffer) (buf : List UInt8)
    (mem : Option (Nat → UInt8)) : (bufferSizeStore k b buf mem).buffer.unread = b.unread := by
  rcases bufferSizeStore_cases k b buf mem with ⟨e, hfail⟩ | ⟨hempty, _, _, _, _, hresize⟩
  · rw [hfail]
  · rw [hresize]
    simp [unread, hempty]

theorem accepted_write (k : Kernel) (b : RingBuffer) (user : List UInt8) :
    accepted k b (.write user .done .done) = user.take (min user.length (space b)) := by
  simp only [accepted, perform, ringBufferWrite, copyFromUser]
  split
  · rename_i n hret
    split at hret
    · cases hret
    · split at hret <;> cases hret <;> rfl
  · rename_i hret
    split at hret
    · rename_i hzero
      rw [hzero, List.take_zero]
    · split at hret <;> cases hret

theorem delivered_write (k : Kernel) (b : RingBuffer) (user : List UInt8) :
    delivered k b (.write user .done .done) = [] := by
  simp only [delivered, perform, ringBufferWrite, copyFromUser]
  split
  · rfl
  · split <;> rfl

theorem delivered_simulate (k : Kernel) (b : RingBuffer) (event : List UInt8) :
    delivered k b (.simulate event) = [] := by
  simp only [delivered, perform, simulateMouseData]
  split
  · split <;> rfl
  · rfl

theorem delivered_resize (k : Kernel) (b : RingBuffer) (buf : List UInt8)
    (mem : Option (Nat → UInt8)) : delivered k b (.resize buf mem) = [] := by
  rcases bufferSizeStore_cases k b buf mem with ⟨e, hfail⟩ | ⟨_, _, _, _, _, hresize⟩
  · rw [delivered, perform, hfail]
  · rw [delivered, perform, hresize]

theorem step_conserves_iff (k : Kernel) {b : RingBuffer} (hb : b.Stored) {op : Op}
    (hop : op.FaultFree) :
    b.unread ++ accepted k b op = delivered k b op ++ (step k b op).unread ↔ ¬ Overruns b op := by
  cases op with
  | write user first second =>
    obtain ⟨rfl, rfl⟩ := hop
    have hle : (user.take (min user.length (space b))).length ≤ space b := by
      rw [List.length_take]; omega
    have hover : Overruns b (.write user .done .done) ↔
        Overruns b (.simulate (user.take (min user.length (space b)))) := by
      have hspace := hb.space_eq
      simp only [Overruns, List.length_take]
      by_cases hht : b.tail ≤ b.head
      · rw [if_pos hht] at hspace
        omega
      · simp [hht]
    rw [accepted_write, delivered_write, List.nil_append, step, perform, ringBufferWrite_done hb,
      producer_conserves_iff hb hle, hover]
  | read count first second =>
    obtain ⟨rfl, rfl⟩ := hop
    obtain ⟨hout, hrest⟩ := ringBufferRead_unread hb count
    simp only [accepted, delivered, step, perform, hout, hrest, List.append_nil,
      List.take_append_drop, Overruns, not_false_iff]
  | simulate event =>
    rw [delivered_simulate, List.nil_append]
    by_cases hle : event.length ≤ space b
    · simp only [accepted, if_pos hle, step, perform]
      exact producer_conserves_iff hb hle
    · have hspace := hb.space_eq
      simp only [accepted, if_neg hle, step, perform, simulateMouseData, List.append_nil, Overruns,
        true_iff]
      rintro ⟨-, hht, hlen⟩
      rw [if_pos hht] at hspace
      omega
  | resize buf mem =>
    rw [delivered_resize, step, perform, bufferSizeStore_unread]
    simp [accepted, Overruns]
  | clear buf => exact hop.elim

theorem available_of_conserves (k : Kernel) {b : RingBuffer} (hb : b.Stored) {op : Op}
    (hop : op.FaultFree) (hno : ¬ Overruns b op) (hacc : accepted k b op ≠ []) :
    available (step k b op) ≠ 0 := by
  have hlaw := (step_conserves_iff k hb hop).mpr hno
  have hdel : delivered k b op = [] := by
    cases op with
    | write user first second =>
      obtain ⟨rfl, rfl⟩ := hop
      exact delivered_write k b user
    | simulate event => exact delivered_simulate k b event
    | read _ _ _ => exact absurd rfl hacc
    | resize _ _ => exact absurd rfl hacc
    | clear _ => exact hop.elim
  rw [hdel, List.nil_append] at hlaw
  rw [← length_unread (step_stored hb k op), ← hlaw, List.length_append]
  have := List.length_pos_iff.mpr hacc
  omega

theorem ringBufferInit_unread {size : Nat} {mem : Option (Nat → UInt8)} {b : RingBuffer}
    (hinit : ringBufferInit size mem = .ok b) : b.unread = [] := by
  obtain ⟨data, -, rfl⟩ := ringBufferInit_eq hinit
  simp [unread]

/-- The buffer is a queue in every state of a fault-free run exactly when no producer of
the run fills, by wrapping, all the space it is offered. -/
theorem ring_buffer_is_fifo_iff (k : Kernel) (bufferSize : Nat)
    (hsize : (bufferSize : Int) ≤ intMax) (mem : Option (Nat → UInt8)) (b₀ : RingBuffer)
    (hinit : ringBufferInit bufferSize mem = .ok b₀) (ops : List Op)
    (hops : ∀ op ∈ ops, op.FaultFree) :
    IsFifo k b₀ ops ↔ Along (step k) (fun b op => ¬ Overruns b op) b₀ ops := by
  have hv := (ringBufferInit_valid hsize hinit).stored
  have hempty := ringBufferInit_unread hinit
  have hok : Along (step k) (fun _ op => op.FaultFree) b₀ ops := Along.of_forall_mem hops
  have hstored : ∀ b op, b.Stored → op.FaultFree → (step k b op).Stored :=
    fun b op hb _ => step_stored hb k op
  have hsteps := conservedInOrder_prefixes_iff (step k) unread (accepted k) (delivered k)
    b₀ ops
  simp only [ConservedInOrder, hempty, List.nil_append] at hsteps
  have hiff : Along (step k) (fun b op => b.unread ++ accepted k b op =
      delivered k b op ++ (step k b op).unread ↔ ¬ Overruns b op) b₀ ops :=
    along_of_invariant Stored hstored (fun b op hb hop => step_conserves_iff k hb hop) hv hok
  constructor
  · intro hfifo
    have hcons := hsteps.mp fun done hdone => (hfifo.1 done hdone).symm
    exact (hiff.and hcons).imp fun b op h => h.1.mp h.2
  · intro hno
    have hcons := (hiff.and hno).imp fun b op h => h.1.mpr h.2
    refine ⟨fun done hdone => (hsteps.mpr hcons done hdone).symm, ?_⟩
    have hav : Along (step k) (fun b op => ¬ Overruns b op → accepted k b op ≠ [] →
        available (step k b op) ≠ 0) b₀ ops :=
      along_of_invariant Stored hstored
        (fun b op hb hop hno hacc => available_of_conserves k hb hop hno hacc) hv hok
    exact (hav.and hno).imp fun b op h => h.1 h.2

theorem ring_buffer_is_fifo_iff_default :
    let k : Kernel := ⟨fun _ => none, fun _ => none⟩
    let b : RingBuffer := ⟨(List.range 4096).map fun _ => 0, 4096, 0, 0⟩
    IsFifo k b [.write [1] .done .done, .read 1 .done .done] ↔
      Along (step k) (fun b op => ¬ Overruns b op) b
        [.write [1] .done .done, .read 1 .done .done] :=
  ring_buffer_is_fifo_iff ⟨fun _ => none, fun _ => none⟩ 4096 (by decide) (some fun _ => 0) _ rfl _
    (by simp [Op.FaultFree])

/-- Two bytes in, two bytes out, then four bytes into the empty four-byte buffer: the write
reports all four and the buffer reads as empty. -/
theorem full_write_from_the_middle_is_lost :
    let k : Kernel := ⟨fun _ => none, fun _ => none⟩
    let ops := [.write [1, 2] .done .done, .read 2 .done .done, .write [3, 4, 5, 6] .done .done]
    ringBufferInit 4 (some fun _ => 0) = .ok ⟨[0, 0, 0, 0], 4, 0, 0⟩ ∧
      (∀ op ∈ ops, op.FaultFree) ∧ ¬ IsFifo k ⟨[0, 0, 0, 0], 4, 0, 0⟩ ops := by
  refine ⟨rfl, by simp [Op.FaultFree], fun h => ?_⟩
  exact absurd (h.1 _ List.prefix_rfl) (by decide)

end Homework.MouseDriver
