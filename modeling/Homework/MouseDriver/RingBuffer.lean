import Homework.Shared.Bytes
import Homework.Shared.CInt
import Homework.Shared.Run

/-!
# The mouse driver's ring buffer

`hw14-driver/mouse_driv.c`: one device buffer, its producers `ring_buffer_write` and
`simulate_mouse_data`, its consumer `ring_buffer_read`, and the two sysfs stores that
reset it. Every operation runs under `buffer.lock`, so an operation is one step.

Sizes are `size_t`: natural numbers below `2 ^ 64` whose sums and differences wrap.
An operation also lists the differences it takes and the ranges of `data` it copies,
since nothing in the code checks either.
-/

namespace Homework.MouseDriver

set_option autoImplicit false

def sizeAdd (a b : Nat) : Nat := (a + b) % 2 ^ 64

def sizeSub (a b : Nat) : Nat := (a + 2 ^ 64 - b) % 2 ^ 64

theorem sizeAdd_eq {a b : Nat} (h : a + b < 2 ^ 64) : sizeAdd a b = a + b :=
  Nat.mod_eq_of_lt h

theorem sizeSub_eq {a b : Nat} (hba : b ≤ a) (ha : a < 2 ^ 64) : sizeSub a b = a - b := by
  unfold sizeSub
  omega

structure RingBuffer where
  data : List UInt8
  size : Nat
  head : Nat
  tail : Nat
  deriving DecidableEq, Repr

inductive Errno where
  | EINVAL
  | ENOMEM
  | EBUSY
  | ENOSPC
  | EFAULT
  deriving DecidableEq, Repr

/-- The kernel's text-to-number parsers; `none` is a nonzero return value. -/
structure Kernel where
  kstrtoul : List UInt8 → Option Nat
  kstrtoint : List UInt8 → Option Int

/-- The end of a copy from or to user space. One that fails may already have written
anything into its destination. -/
inductive Copy where
  | done
  | fault (junk : List UInt8)
  deriving DecidableEq, Repr

/-- What the code does unchecked: a `size_t` difference, or a copy of `len` bytes from or
to `data + offset`. -/
inductive Access where
  | sub (a b : Nat)
  | copy (offset len : Nat)
  deriving DecidableEq, Repr

def Access.InBounds (size : Nat) : Access → Prop
  | sub a b => b ≤ a
  | copy offset len => offset + len ≤ size

structure Outcome where
  buffer : RingBuffer
  ret : Except Errno Nat
  out : List UInt8
  accesses : List Access

/-- `kmalloc`: a failure, or a block with whatever the memory held. -/
def kmalloc (mem : Option (Nat → UInt8)) (n : Nat) : Option (List UInt8) :=
  mem.map fun contents => (List.range n).map contents

def copyFromUser (data : List UInt8) (offset : Nat) (bytes : List UInt8) :
    Copy → Except (List UInt8) (List UInt8)
  | .done => .ok (copyInto data offset bytes)
  | .fault junk => .error (copyInto data offset (junk.take bytes.length))

namespace RingBuffer

variable (b : RingBuffer)

def space : Nat :=
  if b.tail ≤ b.head then sizeSub b.size (sizeSub b.head b.tail)
  else sizeSub (sizeSub b.tail b.head) 1

def spaceAccesses : List Access :=
  if b.tail ≤ b.head then [.sub b.head b.tail, .sub b.size (sizeSub b.head b.tail)]
  else [.sub b.tail b.head, .sub (sizeSub b.tail b.head) 1]

def available : Nat :=
  if b.tail ≤ b.head then sizeSub b.head b.tail
  else sizeAdd (sizeSub b.size b.tail) b.head

def availableAccesses : List Access :=
  if b.tail ≤ b.head then [.sub b.head b.tail] else [.sub b.size b.tail]

end RingBuffer

open RingBuffer

def ringBufferInit (size : Nat) (mem : Option (Nat → UInt8)) : Except Errno RingBuffer :=
  match kmalloc mem size with
  | none => .error .ENOMEM
  | some data => .ok { data, size, head := 0, tail := 0 }

/-- `user` is the `count` bytes at `user_data`; `first` and `second` are the ends of the
two copies, the second one made only when the bytes wrap. -/
def ringBufferWrite (b : RingBuffer) (user : List UInt8) (first second : Copy) : Outcome :=
  let toWrite := min user.length (space b)
  if toWrite = 0 then
    { buffer := b, ret := .error .ENOSPC, out := [], accesses := spaceAccesses b }
  else if sizeAdd b.head toWrite ≤ b.size then
    let accesses := spaceAccesses b ++ [.copy b.head toWrite]
    match copyFromUser b.data b.head (user.take toWrite) first with
    | .error data => { buffer := { b with data }, ret := .error .EFAULT, out := [], accesses }
    | .ok data =>
      { buffer := { b with data, head := sizeAdd b.head toWrite }, ret := .ok toWrite, out := []
        accesses }
  else
    let firstPart := sizeSub b.size b.head
    let accesses := spaceAccesses b ++ [.sub b.size b.head, .copy b.head firstPart]
    match copyFromUser b.data b.head (user.take firstPart) first with
    | .error data => { buffer := { b with data }, ret := .error .EFAULT, out := [], accesses }
    | .ok data =>
      let rest := sizeSub toWrite firstPart
      let accesses := accesses ++ [.sub toWrite firstPart, .copy 0 rest]
      match copyFromUser data 0 ((user.drop firstPart).take rest) second with
      | .error data => { buffer := { b with data }, ret := .error .EFAULT, out := [], accesses }
      | .ok data =>
        { buffer := { b with data, head := rest }, ret := .ok toWrite, out := [], accesses }

def ringBufferRead (b : RingBuffer) (count : Nat) (first second : Copy) : Outcome :=
  let toRead := min count (available b)
  if toRead = 0 then
    { buffer := b, ret := .ok 0, out := [], accesses := availableAccesses b }
  else if sizeAdd b.tail toRead ≤ b.size then
    let accesses := availableAccesses b ++ [.copy b.tail toRead]
    match first with
    | .fault _ => { buffer := b, ret := .error .EFAULT, out := [], accesses }
    | .done =>
      { buffer := { b with tail := sizeAdd b.tail toRead }, ret := .ok toRead
        out := b.data.extract b.tail (b.tail + toRead), accesses }
  else
    let firstPart := sizeSub b.size b.tail
    let accesses := availableAccesses b ++ [.sub b.size b.tail, .copy b.tail firstPart]
    match first with
    | .fault _ => { buffer := b, ret := .error .EFAULT, out := [], accesses }
    | .done =>
      let rest := sizeSub toRead firstPart
      let accesses := accesses ++ [.sub toRead firstPart, .copy 0 rest]
      match second with
      | .fault _ => { buffer := b, ret := .error .EFAULT, out := [], accesses }
      | .done =>
        { buffer := { b with tail := rest }, ret := .ok toRead
          out := b.data.extract b.tail (b.tail + firstPart) ++ b.data.extract 0 rest, accesses }

/-- `get_random_long() % 10 - 5`, taken modulo `2 ^ 64` and then read as an `int`. -/
def mouseCoordinate (random : Nat) : Int := (random % 2 ^ 64 % 10 : Nat) - 5

/-- The text in `event_str`, which `snprintf` never cuts off. -/
def eventStr (displayMode : Int) (randomX randomY : Nat) : List UInt8 :=
  let x := ascii s!"MOUSE_X:{mouseCoordinate randomX}\n"
  let y := ascii s!"MOUSE_Y:{mouseCoordinate randomY}\n"
  if displayMode = 0 then x else if displayMode = 1 then y else x ++ y

/-- The second half of `simulate_mouse_data`, for whatever text is in `event_str`. -/
def simulateMouseData (b : RingBuffer) (event : List UInt8) : Outcome :=
  if event.length ≤ space b then
    if sizeAdd b.head event.length ≤ b.size then
      { buffer := { b with
          data := copyInto b.data b.head event, head := sizeAdd b.head event.length }
        ret := .ok 0, out := []
        accesses := spaceAccesses b ++ [.copy b.head event.length] }
    else
      let firstPart := sizeSub b.size b.head
      let rest := sizeSub event.length firstPart
      { buffer := { b with
          data := copyInto (copyInto b.data b.head (event.take firstPart)) 0
            ((event.drop firstPart).take rest)
          head := rest }
        ret := .ok 0, out := []
        accesses := spaceAccesses b ++ [.sub b.size b.head, .copy b.head firstPart,
          .sub event.length firstPart, .copy 0 rest] }
  else { buffer := b, ret := .ok 0, out := [], accesses := spaceAccesses b }

def mouseOpen (b : RingBuffer) (displayMode : Int) (randomX randomY : Nat) : Outcome :=
  simulateMouseData b (eventStr displayMode randomX randomY)

def bufferSizeStore (k : Kernel) (b : RingBuffer) (buf : List UInt8)
    (mem : Option (Nat → UInt8)) : Outcome :=
  let fail (e : Errno) : Outcome := { buffer := b, ret := .error e, out := [], accesses := [] }
  match k.kstrtoul buf with
  | none => fail .EINVAL
  | some newSize =>
    if newSize < 64 ∨ 65536 < newSize then fail .EINVAL
    else
      match kmalloc mem newSize with
      | none => fail .ENOMEM
      | some newData =>
        if b.head ≠ b.tail then fail .EBUSY
        else
          { buffer := { data := newData, size := newSize, head := 0, tail := 0 }
            ret := .ok buf.length, out := [], accesses := [] }

def clearBufferStore (k : Kernel) (b : RingBuffer) (buf : List UInt8) : Outcome :=
  if k.kstrtoint buf = some 1 then
    { buffer := { b with head := 0, tail := 0 }, ret := .ok buf.length, out := [], accesses := [] }
  else { buffer := b, ret := .error .EINVAL, out := [], accesses := [] }

inductive Op where
  | write (user : List UInt8) (first second : Copy)
  | read (count : Nat) (first second : Copy)
  | simulate (event : List UInt8)
  | resize (buf : List UInt8) (mem : Option (Nat → UInt8))
  | clear (buf : List UInt8)

def perform (k : Kernel) (b : RingBuffer) : Op → Outcome
  | .write user first second => ringBufferWrite b user first second
  | .read count first second => ringBufferRead b count first second
  | .simulate event => simulateMouseData b event
  | .resize buf mem => bufferSizeStore k b buf mem
  | .clear buf => clearBufferStore k b buf

def step (k : Kernel) (b : RingBuffer) (op : Op) : RingBuffer := (perform k b op).buffer

theorem length_eventStr_le (displayMode : Int) (randomX randomY : Nat) :
    (eventStr displayMode randomX randomY).length ≤ 22 := by
  have hx : ∀ n < 10, (ascii s!"MOUSE_X:{((n : Nat) : Int) - 5}\n").length ≤ 11 := by decide +kernel
  have hy : ∀ n < 10, (ascii s!"MOUSE_Y:{((n : Nat) : Int) - 5}\n").length ≤ 11 := by decide +kernel
  have hfirst := hx (randomX % 2 ^ 64 % 10) (Nat.mod_lt _ (by decide))
  have hsecond := hy (randomY % 2 ^ 64 % 10) (Nat.mod_lt _ (by decide))
  unfold eventStr mouseCoordinate
  dsimp only
  split
  · exact hfirst.trans (by decide)
  · split
    · exact hsecond.trans (by decide)
    · rw [List.length_append]
      exact Nat.add_le_add hfirst hsecond

/-- An open is a step, with a text for which `event_str` has room. -/
theorem mouseOpen_eq (k : Kernel) (b : RingBuffer) (displayMode : Int) (randomX randomY : Nat) :
    ∃ event, event.length < 100 ∧ event = eventStr displayMode randomX randomY ∧
      mouseOpen b displayMode randomX randomY = perform k b (.simulate event) :=
  ⟨_, (length_eventStr_le displayMode randomX randomY).trans_lt (by decide), rfl, rfl⟩

end Homework.MouseDriver
