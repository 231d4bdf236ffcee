import Mathlib.Data.Fin.VecNotation
import Homework.MouseDriver.Fifo
import Homework.Shared.Mutex

/-!
# The calls under the lock

The operations of `mouse_driv.c`, called from any number of processes, load by load and byte by
byte. What is checked and allocated before `mutex_lock` is outside of the section; inside, a turn
loads an index or the size, moves one byte, or stores one field. Whatever comes between these
turns, the calls are done as if each of them were one step.
-/

namespace Homework.MouseDriver

set_option autoImplicit false

open RingBuffer Mutex

universe u

/-! ## The sections -/

/-- What is brought into a section. -/
inductive Locked where
  | write (user : List UInt8) (first second : Copy)
  | read (count : Nat) (first second : Copy)
  | simulate (event : List UInt8)
  | resize (newData : List UInt8) (newSize ret : Nat)
  | clear (ret : Nat)

/-- An access to `buffer`; a byte that is fetched goes to the user. -/
inductive Micro where
  | store (i : Nat) (byte : UInt8)
  | fetch (i : Nat)
  | setHead (n : Nat)
  | setTail (n : Nat)
  | setData (data : List UInt8)
  | setSize (n : Nat)

structure Result where
  ret : Except Errno Nat
  out : List UInt8

def stores : Nat → List UInt8 → List Micro
  | _, [] => []
  | i, byte :: bytes => .store i byte :: stores (i + 1) bytes

def fetches (i n : Nat) : List Micro := (List.range' i n).map .fetch

/-- `copy_from_user`, with what comes behind it if it succeeds. -/
def copyPlan (i : Nat) (bytes : List UInt8) (copy : Copy)
    (rest : List Micro × Except Errno Nat) : List Micro × Except Errno Nat :=
  match copy with
  | .done => (stores i bytes ++ rest.1, rest.2)
  | .fault junk => (stores i (junk.take bytes.length), .error .EFAULT)

section Plans
-- Only the indices and the size of `b` are looked at.
variable (b : RingBuffer)

def writePlan (user : List UInt8) (first second : Copy) : List Micro × Except Errno Nat :=
  let toWrite := min user.length (space b)
  if toWrite = 0 then ([], .error .ENOSPC)
  else if sizeAdd b.head toWrite ≤ b.size then
    copyPlan b.head (user.take toWrite) first ([.setHead (sizeAdd b.head toWrite)], .ok toWrite)
  else
    let firstPart := sizeSub b.size b.head
    let rest := sizeSub toWrite firstPart
    copyPlan b.head (user.take firstPart) first
      (copyPlan 0 ((user.drop firstPart).take rest) second ([.setHead rest], .ok toWrite))

def readPlan (count : Nat) (first second : Copy) : List Micro × Except Errno Nat :=
  let toRead := min count (available b)
  if toRead = 0 then ([], .ok 0)
  else if sizeAdd b.tail toRead ≤ b.size then
    match first with
    | .fault _ => ([], .error .EFAULT)
    | .done => (fetches b.tail toRead ++ [.setTail (sizeAdd b.tail toRead)], .ok toRead)
  else
    let firstPart := sizeSub b.size b.tail
    match first with
    | .fault _ => ([], .error .EFAULT)
    | .done =>
      let rest := sizeSub toRead firstPart
      match second with
      | .fault _ => (fetches b.tail firstPart, .error .EFAULT)
      | .done => (fetches b.tail firstPart ++ (fetches 0 rest ++ [.setTail rest]), .ok toRead)

def simulatePlan (event : List UInt8) : List Micro × Except Errno Nat :=
  if event.length ≤ space b then
    if sizeAdd b.head event.length ≤ b.size then
      (stores b.head event ++ [.setHead (sizeAdd b.head event.length)], .ok 0)
    else
      let firstPart := sizeSub b.size b.head
      let rest := sizeSub event.length firstPart
      (stores b.head (event.take firstPart) ++
        (stores 0 ((event.drop firstPart).take rest) ++ [.setHead rest]), .ok 0)
  else ([], .ok 0)

/-- What is left to do of a section when the loads have been done. -/
def plan : Locked → List Micro × Except Errno Nat
  | .write user first second => writePlan b user first second
  | .read count first second => readPlan b count first second
  | .simulate event => simulatePlan b event
  | .resize newData newSize ret =>
    if b.head ≠ b.tail then ([], .error .EBUSY)
    else ([.setData newData, .setSize newSize, .setHead 0, .setTail 0], .ok ret)
  | .clear ret => ([.setHead 0, .setTail 0], .ok ret)

end Plans

/-- One access, with the bytes that the user has so far. -/
def access (b : RingBuffer) (out : List UInt8) : Micro → RingBuffer × List UInt8
  | .store i byte => ({ b with data := b.data.set i byte }, out)
  | .fetch i => (b, out ++ (b.data[i]?).toList)
  | .setHead n => ({ b with head := n }, out)
  | .setTail n => ({ b with tail := n }, out)
  | .setData data => ({ b with data }, out)
  | .setSize n => ({ b with size := n }, out)

/-! ## The processes -/

/-- The calls that a process has still to make, and what the ones before have returned. -/
structure Caller where
  calls : List Op
  results : List Result

def Caller.returns (calls : List Op) (results : List Result) (ret : Except Errno Nat)
    (out : List UInt8) : Caller where
  calls := calls
  -- what a failed read has copied is not for the user
  results := results ++ [⟨ret, match ret with
    | .ok _ => out
    | .error _ => []⟩]

/-- Where a process is inside a section, and what it goes on with. -/
inductive Registers where
  | loadHead (locked : Locked) (calls : List Op) (results : List Result)
  | loadTail (locked : Locked) (head : Nat) (calls : List Op) (results : List Result)
  | loadSize (locked : Locked) (head tail : Nat) (calls : List Op) (results : List Result)
  | work (todo : List Micro) (ret : Except Errno Nat) (out : List UInt8) (calls : List Op)
      (results : List Result)

/-- The part of a call before `mutex_lock`. -/
def prepare (k : Kernel) : Op → Errno ⊕ Locked
  | .write user first second => .inr (.write user first second)
  | .read count first second => .inr (.read count first second)
  | .simulate event => .inr (.simulate event)
  | .resize buf mem =>
    match k.kstrtoul buf with
    | none => .inl .EINVAL
    | some newSize =>
      if newSize < 64 ∨ 65536 < newSize then .inl .EINVAL
      else
        match kmalloc mem newSize with
        | none => .inl .ENOMEM
        | some newData => .inr (.resize newData newSize buf.length)
  | .clear buf => if k.kstrtoint buf = some 1 then .inr (.clear buf.length) else .inl .EINVAL

def driverCode (k : Kernel) : Code Unit (fun _ => RingBuffer) Caller fun _ => Registers where
  next
    | ⟨[], results⟩ => .own ⟨[], results⟩
    | ⟨op :: calls, results⟩ =>
      match prepare k op with
      | .inl e => .own (.returns calls results (.error e) [])
      | .inr locked => .lock () (.loadHead locked calls results)
  body _ b
    | .loadHead locked calls results => (b, .inl (.loadTail locked b.head calls results))
    | .loadTail locked head calls results => (b, .inl (.loadSize locked head b.tail calls results))
    | .loadSize locked head tail calls results =>
      let (todo, ret) := plan ⟨[], b.size, head, tail⟩ locked
      (b, .inl (.work todo ret [] calls results))
    | .work [] ret out calls results => (b, .inr (.returns calls results ret out))
    | .work (micro :: todo) ret out calls results =>
      let (b, out) := access b out micro
      (b, .inl (.work todo ret out calls results))

/-! ## What a section comes to -/

def accesses (b : RingBuffer) (out : List UInt8) (todo : List Micro) : RingBuffer × List UInt8 :=
  todo.foldl (fun s micro => access s.1 s.2 micro) (b, out)

def worked (b : RingBuffer) (todo : List Micro) (ret : Except Errno Nat) (out : List UInt8)
    (calls : List Op) (results : List Result) : RingBuffer × Caller :=
  ((accesses b out todo).1, .returns calls results ret (accesses b out todo).2)

def planned (b : RingBuffer) (head tail : Nat) (locked : Locked) :
    List Micro × Except Errno Nat := plan ⟨[], b.size, head, tail⟩ locked

def finish (_ : Unit) (b : RingBuffer) : Registers → RingBuffer × Caller
  | .loadHead locked calls results =>
    worked b (planned b b.head b.tail locked).1 (planned b b.head b.tail locked).2 [] calls results
  | .loadTail locked head calls results =>
    worked b (planned b head b.tail locked).1 (planned b head b.tail locked).2 [] calls results
  | .loadSize locked head tail calls results =>
    worked b (planned b head tail locked).1 (planned b head tail locked).2 [] calls results
  | .work todo ret out calls results => worked b todo ret out calls results

theorem driverCode_finishes (k : Kernel) : Finishes (driverCode k) finish where
  goesOn l b registers b' registers' h := by
    cases registers with
    | loadHead locked calls results =>
      cases h
      rfl
    | loadTail locked head calls results =>
      cases h
      rfl
    | loadSize locked head tail calls results =>
      cases h
      rfl
    | work todo ret out calls results =>
      cases todo with
      | nil => cases h
      | cons micro todo =>
        cases h
        rfl
  ends l b registers b' caller h := by
    cases registers with
    | loadHead locked calls results => cases h
    | loadTail locked head calls results => cases h
    | loadSize locked head tail calls results => cases h
    | work todo ret out calls results =>
      cases todo with
      | nil =>
        cases h
        rfl
      | cons micro todo => cases h

def turnsLeft (_ : Unit) (b : RingBuffer) : Registers → Nat
  | .loadHead locked _ _ => (planned b b.head b.tail locked).1.length + 4
  | .loadTail locked head _ _ => (planned b head b.tail locked).1.length + 3
  | .loadSize locked head tail _ _ => (planned b head tail locked).1.length + 2
  | .work todo _ _ _ _ => todo.length + 1

theorem driverCode_ends (k : Kernel) : Ends (driverCode k) := by
  apply @ends_of_decreasing _ _ _ _ _ turnsLeft
  intro l b registers b' registers' h
  cases registers with
  | loadHead locked calls results =>
    cases h
    exact Nat.lt_succ_self _
  | loadTail locked head calls results =>
    cases h
    exact Nat.lt_succ_self _
  | loadSize locked head tail calls results =>
    cases h
    exact Nat.lt_succ_self _
  | work todo ret out calls results =>
    cases todo with
    | nil => cases h
    | cons micro todo =>
      cases h
      exact Nat.lt_succ_self _

theorem accesses_append (b : RingBuffer) (out : List UInt8) (todo rest : List Micro) :
    accesses b out (todo ++ rest) =
      accesses (accesses b out todo).1 (accesses b out todo).2 rest := List.foldl_append

theorem accesses_stores {b : RingBuffer} {i : Nat} {bytes : List UInt8} (out : List UInt8)
    (h : i + bytes.length ≤ b.data.length) :
    accesses b out (stores i bytes) = ({ b with data := copyInto b.data i bytes }, out) := by
  induction bytes generalizing b i with
  | nil =>
    rw [copyInto_nil]
    rfl
  | cons byte bytes ih =>
    have hrest := @ih { b with data := b.data.set i byte } (i + 1) (by
      rw [List.length_cons] at h
      dsimp only
      rw [List.length_set]
      omega)
    rw [copyInto_cons h]
    exact hrest

theorem accesses_fetches {b : RingBuffer} (i n : Nat) (out : List UInt8) :
    accesses b out (fetches i n) = (b, out ++ b.data.extract i (i + n)) := by
  induction n generalizing i out with
  | zero =>
    rw [Nat.add_zero, List.extract_eq_take_drop, Nat.sub_self, List.take_zero, List.append_nil]
    rfl
  | succ n ih =>
    have hrest := ih (i + 1) (out ++ (b.data[i]?).toList)
    have hend : i + 1 + n = i + (n + 1) := by omega
    rw [List.append_assoc, ← extract_succ_right,
      extract_append_extract (Nat.le_succ i) (Nat.le_add_right _ _), hend,
      extract_succ_right] at hrest
    exact hrest

/-- The plan does what the operation does to the buffer, and hands the same bytes out. -/
structure Performs (b : RingBuffer) (todo : List Micro × Except Errno Nat) (o : Outcome) :
    Prop where
  buffer : (accesses b [] todo.1).1 = o.buffer
  ret : todo.2 = o.ret
  out : ∀ n, o.ret = .ok n → (accesses b [] todo.1).2 = o.out
  failed : ∀ e, o.ret = .error e → o.out = []

theorem performs_ok {b : RingBuffer} {todo : List Micro × Except Errno Nat} {o : Outcome} {n : Nat}
    (h : accesses b [] todo.1 = (o.buffer, o.out)) (htodo : todo.2 = .ok n) (hret : o.ret = .ok n) :
    Performs b todo o where
  buffer := congrArg Prod.fst h
  ret := htodo.trans hret.symm
  out _ _ := congrArg Prod.snd h
  failed e he := by
    rw [hret] at he
    cases he

theorem performs_error {b : RingBuffer} {todo : List Micro × Except Errno Nat} {o : Outcome}
    {e : Errno} (h : (accesses b [] todo.1).1 = o.buffer) (htodo : todo.2 = .error e)
    (hret : o.ret = .error e) (hout : o.out = []) : Performs b todo o where
  buffer := h
  ret := htodo.trans hret.symm
  out n hn := by
    rw [hret] at hn
    cases hn
  failed _ _ := hout

theorem copyPlan_error {b : RingBuffer} {i : Nat} {bytes data : List UInt8} {copy : Copy}
    (hin : i + bytes.length ≤ b.data.length) (h : copyFromUser b.data i bytes copy = .error data)
    (out : List UInt8) (rest : List Micro × Except Errno Nat) :
    accesses b out (copyPlan i bytes copy rest).1 = ({ b with data }, out) ∧
      (copyPlan i bytes copy rest).2 = .error .EFAULT := by
  cases copy with
  | done => cases h
  | fault junk =>
    cases h
    have hjunk : (junk.take bytes.length).length ≤ bytes.length := List.length_take_le _ _
    exact ⟨accesses_stores out (by omega), rfl⟩

theorem copyPlan_ok {b : RingBuffer} {i : Nat} {bytes data : List UInt8} {copy : Copy}
    (hin : i + bytes.length ≤ b.data.length) (h : copyFromUser b.data i bytes copy = .ok data)
    (out : List UInt8) (rest : List Micro × Except Errno Nat) :
    accesses b out (copyPlan i bytes copy rest).1 = accesses { b with data } out rest.1 ∧
      (copyPlan i bytes copy rest).2 = rest.2 := by
  cases copy with
  | done =>
    cases h
    refine ⟨?_, rfl⟩
    rw [copyPlan, accesses_append, accesses_stores out hin]
  | fault junk => cases h

section Plan
variable {b : RingBuffer} (hb : b.Stored)
include hb

theorem writePlan_performs (user : List UInt8) (first second : Copy) :
    Performs b (writePlan b user first second) (ringBufferWrite b user first second) := by
  have hdata := hb.length_data
  have hh := hb.head_le
  have ht := hb.tail_le
  have hle : min user.length (space b) ≤ space b := Nat.min_le_right _ _
  unfold writePlan ringBufferWrite
  simp only
  generalize min user.length (space b) = n at hle ⊢
  split
  · exact ⟨rfl, rfl, fun _ _ => rfl, fun _ _ => rfl⟩
  split
  · rename_i hfit
    obtain ⟨-, hin⟩ := hb.producer_fit hle hfit
    have htake : (user.take n).length ≤ n := List.length_take_le _ _
    have hcopy : b.head + (user.take n).length ≤ b.data.length := by omega
    split <;> rename_i hc
    · obtain ⟨haccesses, hret⟩ := copyPlan_error hcopy hc [] _
      exact performs_error (congrArg Prod.fst haccesses) hret rfl rfl
    · obtain ⟨haccesses, hret⟩ := copyPlan_ok hcopy hc [] _
      exact performs_ok haccesses hret rfl
  · rename_i hwrap
    obtain ⟨hgt, hht, hrest, hsub, hsub'⟩ := hb.producer_wrap hle hwrap
    rw [hsub, hsub']
    have htake : (user.take (b.size - b.head)).length ≤ b.size - b.head := List.length_take_le _ _
    have htake' : ((user.drop (b.size - b.head)).take (n - (b.size - b.head))).length ≤
        n - (b.size - b.head) := List.length_take_le _ _
    have hcopy : b.head + (user.take (b.size - b.head)).length ≤ b.data.length := by omega
    split <;> rename_i hc
    · obtain ⟨haccesses, hret⟩ := copyPlan_error hcopy hc [] _
      exact performs_error (congrArg Prod.fst haccesses) hret rfl rfl
    rename_i data
    obtain ⟨haccesses, hret⟩ := copyPlan_ok hcopy hc [] _
    have hlength : data.length = b.data.length := by
      cases copyFromUser_ok hc
      exact length_copyInto hcopy
    have hcopy' : 0 + ((user.drop (b.size - b.head)).take (n - (b.size - b.head))).length ≤
        ({ b with data } : RingBuffer).data.length := by
      dsimp only
      omega
    split <;> rename_i hc'
    · obtain ⟨haccesses', hret'⟩ := @copyPlan_error { b with data } _ _ _ _ hcopy' hc' [] _
      exact performs_error (congrArg Prod.fst (haccesses.trans haccesses')) (hret.trans hret') rfl
        rfl
    · obtain ⟨haccesses', hret'⟩ := @copyPlan_ok { b with data } _ _ _ _ hcopy' hc' [] _
      exact performs_ok (haccesses.trans haccesses') (hret.trans hret') rfl

theorem readPlan_performs (count : Nat) (first second : Copy) :
    Performs b (readPlan b count first second) (ringBufferRead b count first second) := by
  have hle : min count (available b) ≤ available b := Nat.min_le_right _ _
  unfold readPlan ringBufferRead
  simp only
  generalize min count (available b) = n at hle ⊢
  split
  · exact ⟨rfl, rfl, fun _ _ => rfl, fun _ _ => rfl⟩
  split
  · rename_i hfit
    obtain ⟨hsum, -⟩ := hb.consumer_fit hle hfit
    cases first with
    | fault _ => exact ⟨rfl, rfl, fun _ _ => rfl, fun _ _ => rfl⟩
    | done =>
      have haccesses : accesses b [] (fetches b.tail n ++ [.setTail (sizeAdd b.tail n)]) =
          ({ b with tail := sizeAdd b.tail n }, b.data.extract b.tail (b.tail + n)) := by
        rw [accesses_append, accesses_fetches]
        rfl
      exact performs_ok haccesses rfl rfl
  · rename_i hwrap
    obtain ⟨-, -, -, hsub, hsub'⟩ := hb.consumer_wrap hle hwrap
    rw [hsub, hsub']
    cases first with
    | fault _ => exact ⟨rfl, rfl, fun _ _ => rfl, fun _ _ => rfl⟩
    | done =>
      cases second with
      | fault _ =>
        have haccesses := @accesses_fetches b b.tail (b.size - b.tail) []
        exact performs_error (congrArg Prod.fst haccesses) rfl rfl rfl
      | done =>
        have haccesses : accesses b [] (fetches b.tail (b.size - b.tail) ++
            (fetches 0 (n - (b.size - b.tail)) ++ [.setTail (n - (b.size - b.tail))])) =
            ({ b with tail := n - (b.size - b.tail) },
              b.data.extract b.tail (b.tail + (b.size - b.tail)) ++
                b.data.extract 0 (n - (b.size - b.tail))) := by
          rw [accesses_append, accesses_fetches, accesses_append, accesses_fetches, Nat.zero_add]
          rfl
        exact performs_ok haccesses rfl rfl

theorem simulatePlan_performs (event : List UInt8) :
    Performs b (simulatePlan b event) (simulateMouseData b event) := by
  have hdata := hb.length_data
  have hh := hb.head_le
  have ht := hb.tail_le
  unfold simulatePlan simulateMouseData
  split
  · rename_i hle
    split
    · rename_i hfit
      obtain ⟨-, hin⟩ := hb.producer_fit hle hfit
      have haccesses : accesses b []
          (stores b.head event ++ [.setHead (sizeAdd b.head event.length)]) =
          ({ b with data := copyInto b.data b.head event, head := sizeAdd b.head event.length },
            []) := by
        rw [accesses_append, accesses_stores [] (by omega)]
        rfl
      exact performs_ok haccesses rfl rfl
    · rename_i hwrap
      obtain ⟨hgt, hht, hrest, hsub, hsub'⟩ := hb.producer_wrap hle hwrap
      simp only [hsub, hsub']
      have htake : (event.take (b.size - b.head)).length ≤ b.size - b.head :=
        List.length_take_le _ _
      have htake' : ((event.drop (b.size - b.head)).take
          (event.length - (b.size - b.head))).length ≤ event.length - (b.size - b.head) :=
        List.length_take_le _ _
      have hcopy : b.head + (event.take (b.size - b.head)).length ≤ b.data.length := by omega
      have hlength := length_copyInto hcopy
      have haccesses : accesses b [] (stores b.head (event.take (b.size - b.head)) ++
          (stores 0 ((event.drop (b.size - b.head)).take (event.length - (b.size - b.head))) ++
            [.setHead (event.length - (b.size - b.head))])) =
          ({ b with
              data := copyInto (copyInto b.data b.head (event.take (b.size - b.head))) 0
                ((event.drop (b.size - b.head)).take (event.length - (b.size - b.head)))
              head := event.length - (b.size - b.head) }, []) := by
        rw [accesses_append, accesses_stores [] hcopy, accesses_append,
          accesses_stores [] (by dsimp only; omega)]
        rfl
      exact performs_ok haccesses rfl rfl
  · exact ⟨rfl, rfl, fun _ _ => rfl, fun _ _ => rfl⟩

end Plan

/-! ## A call at once -/

def callTurn (k : Kernel) (b : RingBuffer) : Caller → RingBuffer × Caller
  | ⟨[], results⟩ => (b, ⟨[], results⟩)
  | ⟨op :: calls, results⟩ =>
    let o := perform k b op
    (o.buffer, ⟨calls, results ++ [⟨o.ret, o.out⟩]⟩)

theorem worked_of_performs {b : RingBuffer} {todo : List Micro × Except Errno Nat} {o : Outcome}
    (h : Performs b todo o) (calls : List Op) (results : List Result) :
    worked b todo.1 todo.2 [] calls results =
      (o.buffer, ⟨calls, results ++ [⟨o.ret, o.out⟩]⟩) := by
  rw [worked, h.buffer, h.ret]
  cases hret : o.ret with
  | ok n =>
    rw [h.out n hret]
    rfl
  | error e =>
    rw [h.failed e hret]
    rfl

/-- What is in the section and what is in front of it make up the whole call. -/
theorem prepare_cases (k : Kernel) {b : RingBuffer} (hb : b.Stored) (op : Op) :
    (∃ e, prepare k op = .inl e ∧
      perform k b op = { buffer := b, ret := .error e, out := [], accesses := [] }) ∨
    ∃ locked, prepare k op = .inr locked ∧ Performs b (plan b locked) (perform k b op) := by
  cases op with
  | write user first second => exact Or.inr ⟨_, rfl, writePlan_performs hb user first second⟩
  | read count first second => exact Or.inr ⟨_, rfl, readPlan_performs hb count first second⟩
  | simulate event => exact Or.inr ⟨_, rfl, simulatePlan_performs hb event⟩
  | resize buf mem =>
    cases hparsed : k.kstrtoul buf with
    | none => exact Or.inl ⟨.EINVAL, by simp only [prepare, hparsed],
        by simp only [perform, bufferSizeStore, hparsed]⟩
    | some newSize =>
      by_cases hrange : newSize < 64 ∨ 65536 < newSize
      · exact Or.inl ⟨.EINVAL, by simp only [prepare, hparsed, if_pos hrange],
          by simp only [perform, bufferSizeStore, hparsed, if_pos hrange]⟩
      cases halloc : kmalloc mem newSize with
      | none => exact Or.inl ⟨.ENOMEM, by simp only [prepare, hparsed, if_neg hrange, halloc],
          by simp only [perform, bufferSizeStore, hparsed, if_neg hrange, halloc]⟩
      | some newData =>
        refine Or.inr ⟨.resize newData newSize buf.length,
          by simp only [prepare, hparsed, if_neg hrange, halloc], ?_⟩
        simp only [perform, bufferSizeStore, hparsed, if_neg hrange, halloc, plan]
        split
        · exact ⟨rfl, rfl, fun _ _ => rfl, fun _ _ => rfl⟩
        · exact performs_ok rfl rfl rfl
  | clear buf =>
    by_cases hone : k.kstrtoint buf = some 1
    · refine Or.inr ⟨.clear buf.length, by simp only [prepare, if_pos hone], ?_⟩
      simp only [perform, clearBufferStore, if_pos hone, plan]
      exact performs_ok rfl rfl rfl
    · exact Or.inl ⟨.EINVAL, by simp only [prepare, if_neg hone],
        by simp only [perform, clearBufferStore, if_neg hone]⟩

theorem wholeTurn_eq (k : Kernel) {shared : Unit → RingBuffer} (hb : (shared ()).Stored)
    (caller : Caller) : wholeTurn (driverCode k) finish shared caller =
      (fun _ => (callTurn k (shared ()) caller).1, (callTurn k (shared ()) caller).2) := by
  obtain ⟨calls, results⟩ := caller
  cases calls with
  | nil => rfl
  | cons op calls =>
    rcases prepare_cases k hb op with ⟨e, hprepare, hperform⟩ | ⟨locked, hprepare, hperforms⟩
    · have hnext : (driverCode k).next ⟨op :: calls, results⟩ =
          .own (.returns calls results (.error e) []) := by
        simp only [driverCode, hprepare]
      rw [wholeTurn, hnext, callTurn, hperform]
      rfl
    · have hnext : (driverCode k).next ⟨op :: calls, results⟩ =
          .lock () (.loadHead locked calls results) := by
        simp only [driverCode, hprepare]
      have hfinish : finish () (shared ()) (.loadHead locked calls results) =
          callTurn k (shared ()) ⟨op :: calls, results⟩ :=
        worked_of_performs hperforms calls results
      rw [wholeTurn, hnext]
      dsimp only
      rw [hfinish]
      refine Prod.ext (funext fun l => ?_) rfl
      dsimp only
      exact Function.update_self l _ shared

theorem calls_wholeTurn (k : Kernel) (shared : Unit → RingBuffer) (op : Op) (calls : List Op)
    (results : List Result) :
    (wholeTurn (driverCode k) finish shared ⟨op :: calls, results⟩).2.calls = calls := by
  cases hprepare : prepare k op <;> simp only [wholeTurn, driverCode, hprepare] <;> rfl

/-! ## One order for all calls -/

variable {ι : Type u} [DecidableEq ι]

/-- What the calls of `log` return, one at a time. -/
def answers (k : Kernel) (b : RingBuffer) (log : List (ι × Op)) : List (ι × Result) :=
  trace (fun b c => step k b c.2)
    (fun b c => (c.1, ⟨(perform k b c.2).ret, (perform k b c.2).out⟩)) b log

omit [DecidableEq ι] in
theorem run_map_snd (k : Kernel) (b : RingBuffer) (log : List (ι × Op)) :
    run (fun b c => step k b c.2) b log = run (step k) b (log.map Prod.snd) :=
  List.foldl_map.symm

structure Called (k : Kernel) (b₀ : RingBuffer) (calls : ι → List Op) (log : List (ι × Op))
    (a : System (Unit → RingBuffer) Caller ι) : Prop where
  buffer : a.shared () = run (step k) b₀ (log.map Prod.snd)
  order : ∀ i, ofThread i log ++ (a.workers i).calls = calls i
  results : ∀ i, (a.workers i).results = ofThread i (answers k b₀ log)

theorem step_called {k : Kernel} {b₀ : RingBuffer} (hb : b₀.Stored) {calls : ι → List Op}
    {log : List (ι × Op)} {a : System (Unit → RingBuffer) Caller ι} (h : Called k b₀ calls log a)
    (i : ι) :
    ∃ more, Called k b₀ calls (log ++ more) (a.step (wholeTurn (driverCode k) finish) i) := by
  obtain ⟨hbuffer, horder, hresults⟩ := h
  have hstored : (a.shared ()).Stored := by
    rw [hbuffer]
    exact run_stored k hb _
  have hturn := wholeTurn_eq k hstored (a.workers i)
  cases hworker : a.workers i with
  | mk todo results =>
    cases todo with
    | nil =>
      have hstep : a.step (wholeTurn (driverCode k) finish) i = a := by
        rw [System.step, hturn, hworker, callTurn, ← hworker, Function.update_eq_self]
      refine ⟨[], ?_⟩
      rw [hstep, List.append_nil]
      exact ⟨hbuffer, horder, hresults⟩
    | cons op rest =>
      have hanswers : answers k b₀ (log ++ [(i, op)]) = answers k b₀ log ++
          [(i, ⟨(perform k (a.shared ()) op).ret, (perform k (a.shared ()) op).out⟩)] := by
        rw [answers, trace_append, run_map_snd, ← hbuffer]
        rfl
      refine ⟨[(i, op)], ?_, fun j => ?_, fun j => ?_⟩
      · rw [System.step, hturn, hworker, List.map_append, run_append, ← hbuffer]
        rfl
      · rw [System.step, hturn, hworker]
        dsimp only
        by_cases hji : j = i
        · subst j
          have hhere := horder i
          rw [hworker] at hhere
          rw [ofThread_concat_self, Function.update_self, ← hhere, List.append_assoc]
          rfl
        · rw [ofThread_concat_of_ne hji, Function.update_of_ne hji, horder j]
      · rw [System.step, hturn, hworker, hanswers]
        dsimp only
        by_cases hji : j = i
        · subst j
          have hhere := hresults i
          rw [hworker] at hhere
          rw [ofThread_concat_self, Function.update_self, ← hhere]
          rfl
        · rw [ofThread_concat_of_ne hji, Function.update_of_ne hji, hresults j]

/-- The calls of `log`, one at a time, explain where the processes are: they are the first calls
of each, the results are theirs, and a process outside has made no other. -/
structure Explains (k : Kernel) (b₀ : RingBuffer) (calls : ι → List Op) (log : List (ι × Op))
    (s : Threads Unit (fun _ => RingBuffer) Caller (fun _ => Registers) ι) : Prop where
  buffer : s.holder () = none → s.shared () = run (step k) b₀ (log.map Prod.snd)
  order : ∀ i, ofThread i log <+: calls i
  outside : ∀ i caller, s.phase i = .out caller → ofThread i log ++ caller.calls = calls i ∧
    caller.results = ofThread i (answers k b₀ log)

theorem explains_of_follows {k : Kernel} {b₀ : RingBuffer} {calls : ι → List Op}
    {log : List (ι × Op)} {a : System (Unit → RingBuffer) Caller ι}
    {s : Threads Unit (fun _ => RingBuffer) Caller (fun _ => Registers) ι}
    (ha : Called k b₀ calls log a) (h : Follows (driverCode k) a s) :
    Explains k b₀ calls log s where
  buffer hfree := (h.free () hfree).trans ha.buffer
  order i := ⟨_, ha.order i⟩
  outside i caller hi := by
    rw [← h.out i caller hi]
    exact ⟨ha.order i, ha.results i⟩

/-- Processes that have done nothing yet, with the calls they are going to make. -/
def processes (b : RingBuffer) (calls : ι → List Op) :
    Threads Unit (fun _ => RingBuffer) Caller (fun _ => Registers) ι :=
  Mutex.start (fun _ => b) fun i => ⟨calls i, []⟩

/-- The processes are on the way from where the calls of `log` have led them. -/
def Explained (k : Kernel) (b₀ : RingBuffer) (calls : ι → List Op) (log : List (ι × Op))
    (s : Threads Unit (fun _ => RingBuffer) Caller (fun _ => Registers) ι) : Prop :=
  ∃ a, Called k b₀ calls log a ∧ Follows (driverCode k) a s

theorem explained_processes (k : Kernel) (b₀ : RingBuffer) (calls : ι → List Op) :
    Explained k b₀ calls [] (processes b₀ calls) :=
  ⟨⟨fun _ => b₀, fun i => ⟨calls i, []⟩⟩, ⟨rfl, fun _ => rfl, fun _ => rfl⟩, follows_start _ _⟩

theorem turn_explained {k : Kernel} {b₀ : RingBuffer} (hb : b₀.Stored) {calls : ι → List Op}
    {log : List (ι × Op)} {s : Threads Unit (fun _ => RingBuffer) Caller (fun _ => Registers) ι}
    (h : Explained k b₀ calls log s) (i : ι) :
    ∃ more, Explained k b₀ calls (log ++ more) (s.turn (driverCode k) i) := by
  obtain ⟨a, hcalled, hfollows⟩ := h
  rcases hfollows.step (driverCode_finishes k).atomic i with hsame | hnext
  · refine ⟨[], a, ?_, hsame⟩
    rwa [List.append_nil]
  · obtain ⟨more, hmore⟩ := step_called hb hcalled i
    exact ⟨more, _, hmore, hnext⟩

/-- However the turns of the processes fall, there is one order in which their calls, each at once
and one behind the other, give every process its results and leave the buffer as it is. The order
of the calls that have returned by some turn is not revised by later ones. And the processes can
always come to the end of their calls. -/
theorem calls_are_linearizable [Fintype ι] (k : Kernel) (bufferSize : Nat)
    (hsize : (bufferSize : Int) ≤ intMax) (mem : Option (Nat → UInt8)) (b₀ : RingBuffer)
    (hinit : ringBufferInit bufferSize mem = .ok b₀) (calls : ι → List Op) (schedule : Nat → ι) :
    let s n := run (Threads.turn (driverCode k)) (processes b₀ calls)
      ((List.range n).map schedule)
    (∃ log : Nat → List (ι × Op), (∀ m n, m ≤ n → log m <+: log n) ∧
      ∀ n, Explains k b₀ calls (log n) (s n)) ∧
    ∀ n, ∃ more, ∀ i, ∃ results,
      (run (Threads.turn (driverCode k)) (s n) more).phase i = .out ⟨[], results⟩ := by
  have hb := (ringBufferInit_valid hsize hinit).stored
  have hturn : ∀ log s i, Explained k b₀ calls log s →
      ∃ more, Explained k b₀ calls (log ++ more) (Threads.turn (driverCode k) s i) :=
    fun _ _ i h => turn_explained hb h i
  obtain ⟨log, hmono, hlog⟩ := exists_history hturn (explained_processes k b₀ calls) schedule
  intro s
  refine ⟨⟨log, hmono, fun n => ?_⟩, fun n => ?_⟩
  · obtain ⟨a, hcalled, hfollows⟩ := hlog n
    exact explains_of_follows hcalled hfollows
  · obtain ⟨a, -, hfollows⟩ := hlog n
    have hleft : ∀ (shared : Unit → RingBuffer) (caller : Caller), caller.calls.length ≠ 0 →
        (wholeTurn (driverCode k) finish shared caller).2.calls.length < caller.calls.length := by
      rintro shared ⟨todo, results⟩ hcaller
      cases todo with
      | nil => exact absurd rfl hcaller
      | cons op rest =>
        rw [calls_wholeTurn]
        exact Nat.lt_succ_self _
    obtain ⟨more, shared, workers, hmore, hend⟩ :=
      exists_completion (driverCode_finishes k).atomic (driverCode_ends k) hleft hfollows
    refine ⟨more, fun i => ⟨(workers i).results, ?_⟩⟩
    rw [hmore]
    have hnone : (workers i).calls = [] := List.eq_nil_of_length_eq_zero (hend i)
    dsimp only [Mutex.start]
    rw [← hnone]

/-- Two processes that write and read, and one that resets the buffer. -/
theorem calls_are_linearizable_of_three :
    let k : Kernel := ⟨fun _ => none, fun _ => some 1⟩
    let b : RingBuffer := ⟨[0, 0, 0, 0], 4, 0, 0⟩
    let calls : Fin 3 → List Op := ![[.write [1, 2] .done .done],
      [.read 1 .done .done, .simulate [3]], [.clear []]]
    let s n := run (Threads.turn (driverCode k)) (processes b calls)
      ((List.range n).map (Fin.ofNat 3))
    (∃ log : Nat → List (Fin 3 × Op), (∀ m n, m ≤ n → log m <+: log n) ∧
      ∀ n, Explains k b calls (log n) (s n)) ∧
    ∀ n, ∃ more, ∀ i, ∃ results,
      (run (Threads.turn (driverCode k)) (s n) more).phase i = .out ⟨[], results⟩ :=
  calls_are_linearizable ⟨fun _ => none, fun _ => some 1⟩ 4 (by decide) (some fun _ => 0) _ rfl _ _

end Homework.MouseDriver
