import Homework.MouseDriver.Fifo
import Homework.Shared.CString

/-!
# What the status file says

`buffer_status_show` counts one cell that is never filled. `ring_buffer_write` and
`simulate_mouse_data` keep such a cell only while `head` is below `tail`; with `tail ≤ head`
they fill it, and the number shown as free is then one less than what a write takes, or
wraps around when the buffer is full.
-/

namespace Homework.MouseDriver

set_option autoImplicit false

open RingBuffer

def statusFree (b : RingBuffer) : Nat := sizeSub (sizeSub b.size (available b)) 1

def statusAccesses (b : RingBuffer) : List Access :=
  availableAccesses b ++ [.sub b.size (available b), .sub (sizeSub b.size (available b)) 1]

def statusText (used free : Nat) : List UInt8 :=
  ascii "Used: " ++ (ascii (toString used) ++ (ascii ", Free: " ++ (ascii (toString free) ++
    ascii "\n")))

def bufferStatusShow (b : RingBuffer) : List UInt8 := statusText (available b) (statusFree b)

theorem statusText_inj {used used' free free' : Nat} :
    statusText used free = statusText used' free' ↔ used = used' ∧ free = free' := by
  have hcomma : ∀ (xs : List UInt8), ∀ b ∈ (ascii ", Free: " ++ xs).head?, isDigit b = false := by
    intro xs b hb
    cases hb
    rfl
  have hend : ∀ b ∈ (ascii "\n").head?, isDigit b = false := by
    intro b hb
    cases hb
    rfl
  rw [statusText, statusText, List.append_cancel_left_eq,
    ascii_toString_append_inj (hcomma _) (hcomma _), List.append_cancel_left_eq,
    ascii_toString_append_inj hend hend, and_iff_left rfl]

/-- The text shows what a read returns and what a write takes, if these ask for enough. -/
structure StatusAgrees (k : Kernel) (b : RingBuffer) : Prop where
  noWrap : ∀ a ∈ statusAccesses b, a.InBounds b.size
  shown : ∀ user count, b.size ≤ user.length → b.size ≤ count → bufferStatusShow b =
    statusText (delivered k b (.read count .done .done)).length
      (accepted k b (.write user .done .done)).length

section States
variable {b : RingBuffer} (hb : b.Stored)
include hb

theorem sizeSub_available : sizeSub b.size (available b) =
    if b.tail ≤ b.head then b.size - (b.head - b.tail) else b.tail - b.head := by
  have hs := hb.size_lt
  have hh := hb.head_le
  have ht := hb.tail_le
  rw [hb.available_eq]
  split
  · exact sizeSub_eq (by omega) (by omega)
  · rw [sizeSub_eq (by omega) (by omega)]
    omega

theorem statusFree_of_wrapped (hlt : b.head < b.tail) : statusFree b = space b := by
  have hs := hb.size_lt
  have ht := hb.tail_le
  rw [statusFree, sizeSub_available hb, hb.space_eq, if_neg (by omega), if_neg (by omega)]
  exact sizeSub_eq (by omega) (by omega)

theorem statusFree_ne_space (hht : b.tail ≤ b.head) : statusFree b ≠ space b := by
  have hs := hb.size_lt
  rw [statusFree, sizeSub_available hb, hb.space_eq, if_pos hht, if_pos hht, sizeSub]
  omega

theorem length_accepted_write (k : Kernel) {user : List UInt8} (huser : b.size ≤ user.length) :
    (accepted k b (.write user .done .done)).length = space b := by
  have hle := hb.space_le
  rw [accepted_write, List.length_take]
  omega

theorem length_delivered_read (k : Kernel) {count : Nat} (hcount : b.size ≤ count) :
    (delivered k b (.read count .done .done)).length = available b := by
  have hle := hb.available_le
  have hout : delivered k b (.read count .done .done) = b.unread.take count :=
    (ringBufferRead_unread hb count).1
  rw [hout, List.length_take, length_unread hb]
  omega

theorem statusAccesses_inBounds (hlt : b.head < b.tail) :
    ∀ a ∈ statusAccesses b, a.InBounds b.size := by
  have hh := hb.head_le
  have ht := hb.tail_le
  unfold statusAccesses
  refine List.forall_mem_append.mpr ⟨hb.availableAccesses_inBounds, ?_⟩
  rw [sizeSub_available hb, hb.available_eq, if_neg (by omega), if_neg (by omega)]
  simp
  omega

theorem statusAgrees_iff (k : Kernel) : StatusAgrees k b ↔ b.head < b.tail := by
  constructor
  · intro h
    by_contra hnlt
    have hshown := h.shown (List.replicate b.size 0) b.size (by simp) (Nat.le_refl _)
    rw [length_accepted_write hb k (by simp)] at hshown
    exact statusFree_ne_space hb (by omega) (statusText_inj.mp hshown).2
  · intro hlt
    refine ⟨statusAccesses_inBounds hb hlt, fun user count huser hcount => ?_⟩
    rw [bufferStatusShow, length_accepted_write hb k huser, length_delivered_read hb k hcount,
      statusFree_of_wrapped hb hlt]

end States

/-- In any state of any run the status file is right exactly when the unread bytes go
around the end of the array. -/
theorem status_agrees_iff_wrapped (k : Kernel) (bufferSize : Nat) (hsize : bufferSize < 2 ^ 63)
    (mem : Option (Nat → UInt8)) (b₀ : RingBuffer) (hinit : ringBufferInit bufferSize mem = .ok b₀)
    (ops : List Op) :
    StatusAgrees k (run (step k) b₀ ops) ↔
      (run (step k) b₀ ops).head < (run (step k) b₀ ops).tail :=
  statusAgrees_iff (run_stored k (ringBufferInit_stored hsize hinit) ops) k

/-- The event of an open goes around the end of a buffer with ten unread bytes. -/
theorem status_agrees_iff_wrapped_of_open :
    let k : Kernel := ⟨fun _ => none, fun _ => none⟩
    let b : RingBuffer := ⟨(List.range 64).map fun _ => 0, 64, 0, 0⟩
    let ops : List Op := [.write (List.replicate 60 1) .done .done, .read 50 .done .done]
    StatusAgrees k (mouseOpen (run (step k) b ops) 2 0 9).buffer := by
  intro k b ops
  obtain ⟨event, -, rfl, hopen⟩ := mouseOpen_eq k (run (step k) b ops) 2 0 9
  have hrun : run (step k) b (ops ++ [.simulate (eventStr 2 0 9)]) =
      (perform k (run (step k) b ops) (.simulate (eventStr 2 0 9))).buffer := run_append ..
  rw [hopen, ← hrun]
  exact (status_agrees_iff_wrapped k 64 (by decide) (some fun _ => 0) b rfl _).mpr
    (by decide +kernel)

/-- The new buffer shows 63 free bytes and takes 64, and then it shows `2 ^ 64 - 1`. -/
theorem status_of_small_buffer_is_wrong :
    let k : Kernel := ⟨fun _ => none, fun _ => none⟩
    let b : RingBuffer := ⟨(List.range 64).map fun _ => 0, 64, 0, 0⟩
    let user : List UInt8 := List.replicate 64 1
    ringBufferInit 64 (some fun _ => 0) = .ok b ∧ ¬ StatusAgrees k (run (step k) b []) ∧
      bufferStatusShow b = statusText 0 63 ∧ (accepted k b (.write user .done .done)).length = 64 ∧
      bufferStatusShow (run (step k) b [.write user .done .done]) = statusText 64 (2 ^ 64 - 1) := by
  refine ⟨rfl, fun h => ?_, rfl, rfl, rfl⟩
  have hshown := (statusText_inj.mp (h.shown (List.replicate 64 1) 64 (by decide) (by decide))).2
  exact absurd hshown (by decide)

end Homework.MouseDriver
