import Homework.MouseDriver.Locking

/-!
# Traffic that fits

A buffer that is larger than all that is ever written to it is never filled, and then no write
is cut short and no byte is lost, whatever the order of the calls.
-/

namespace Homework.MouseDriver

set_option autoImplicit false

open RingBuffer Mutex

universe u

def Op.bytes : Op → List UInt8
  | .write user _ _ => user
  | .simulate event => event
  | _ => []

/-- A read, a write without a fault or an event, and nothing that resets the buffer. -/
def Op.Plain : Op → Prop
  | .write _ first second => first = .done ∧ second = .done
  | .read _ first second => first = .done ∧ second = .done
  | .simulate _ => True
  | .resize _ _ => False
  | .clear _ => False

theorem Op.Plain.faultFree {op : Op} (h : op.Plain) : op.FaultFree := by
  cases op with
  | write user first second => exact h
  | read count first second => exact h
  | simulate event => trivial
  | resize buf mem => exact h.elim
  | clear buf => exact h

/-- There is room for `n` bytes, and for one more. -/
def RingBuffer.Roomy (b : RingBuffer) (n : Nat) : Prop := available b + n < b.size

section Room
variable {b : RingBuffer} (hb : b.Stored)
include hb

theorem le_space_of_roomy {n : Nat} (h : b.Roomy n) : n ≤ space b := by
  have hh := hb.head_le
  have ht := hb.tail_le
  unfold Roomy at h
  rw [hb.available_eq] at h
  rw [hb.space_eq]
  split <;> rename_i hht
  · rw [if_pos hht] at h
    omega
  · rw [if_neg hht] at h
    omega

theorem not_overruns_of_roomy {op : Op} (h : b.Roomy op.bytes.length) : ¬ Overruns b op := by
  unfold Roomy at h
  rw [hb.available_eq] at h
  cases op with
  | write user first second =>
    rintro ⟨-, hht, hlen⟩
    rw [if_pos hht] at h
    dsimp only [Op.bytes] at h
    omega
  | simulate event =>
    rintro ⟨-, hht, hlen⟩
    rw [if_pos hht] at h
    dsimp only [Op.bytes] at h
    omega
  | read count first second => exact id
  | resize buf mem => exact id
  | clear buf => exact id

theorem accepted_of_roomy (k : Kernel) {op : Op} (hop : op.Plain)
    (h : b.Roomy op.bytes.length) : accepted k b op = op.bytes := by
  have hle := le_space_of_roomy hb h
  cases op with
  | write user first second =>
    obtain ⟨rfl, rfl⟩ := hop
    dsimp only [Op.bytes] at hle ⊢
    rw [accepted_write, Nat.min_eq_left hle, List.take_length]
  | simulate event => exact if_pos hle
  | read count first second => rfl
  | resize buf mem => exact hop.elim
  | clear buf => exact hop.elim

theorem size_step_of_plain (k : Kernel) {op : Op} (hop : op.Plain) :
    (step k b op).size = b.size := by
  cases op with
  | write user first second => exact (ringBufferWrite_produced hb user first second).size_eq
  | simulate event => exact (simulateMouseData_produced hb event).size_eq
  | read count first second =>
    obtain ⟨rfl, rfl⟩ := hop
    have hbuffer := ((ringBufferRead_consumed hb count .done .done).done _
      (ret_ringBufferRead_done count)).1
    exact (congrArg RingBuffer.size hbuffer).trans rfl
  | resize buf mem => exact hop.elim
  | clear buf => exact hop.elim

theorem step_roomy (k : Kernel) {op : Op} (hop : op.Plain) {n : Nat}
    (h : b.Roomy (op.bytes.length + n)) :
    b.unread ++ op.bytes = delivered k b op ++ (step k b op).unread ∧ (step k b op).Roomy n := by
  have hnow : b.Roomy op.bytes.length := by
    unfold Roomy at h ⊢
    omega
  have hlaw := (step_conserves_iff k hb hop.faultFree).mpr (not_overruns_of_roomy hb hnow)
  rw [accepted_of_roomy hb k hop hnow] at hlaw
  refine ⟨hlaw, ?_⟩
  have hlength := congrArg List.length hlaw
  rw [List.length_append, List.length_append, length_unread hb,
    length_unread (step_stored hb k op)] at hlength
  unfold Roomy at h ⊢
  rw [size_step_of_plain hb k hop]
  omega

end Room

/-- What a run does that never fills the buffer. -/
theorem run_roomy (k : Kernel) {b : RingBuffer} (hb : b.Stored) {ops : List Op}
    (hops : ∀ op ∈ ops, op.Plain) (h : b.Roomy (ops.flatMap Op.bytes).length) :
    b.unread ++ ops.flatMap Op.bytes =
        (trace (step k) (delivered k) b ops).flatten ++ (run (step k) b ops).unread ∧
      Along (step k) (fun b op => accepted k b op = op.bytes) b ops := by
  induction ops generalizing b with
  | nil => exact ⟨List.append_nil _, trivial⟩
  | cons op ops ih =>
    have hop := hops op List.mem_cons_self
    rw [List.flatMap_cons, List.length_append] at h
    obtain ⟨hlaw, hroomy⟩ := step_roomy hb k hop h
    have hnow : b.Roomy op.bytes.length := by
      unfold Roomy at h ⊢
      omega
    obtain ⟨hrest, halong⟩ := ih (step_stored hb k op)
      (fun op' hop' => hops op' (List.mem_cons_of_mem _ hop')) hroomy
    refine ⟨?_, accepted_of_roomy hb k hop hnow, halong⟩
    rw [List.flatMap_cons, ← List.append_assoc, hlaw, List.append_assoc, hrest, trace_cons,
      List.flatten_cons, run_cons, List.append_assoc]

/-! ## Processes with little to write -/

variable {ι : Type u}

theorem flatMap_out_answers (k : Kernel) (b : RingBuffer) (log : List (ι × Op)) :
    (answers k b log).flatMap (fun c => c.2.out) =
      (trace (step k) (delivered k) b (log.map Prod.snd)).flatten := by
  induction log generalizing b with
  | nil => rfl
  | cons c log ih =>
    rw [answers, trace_cons, List.flatMap_cons, List.map_cons, trace_cons, List.flatten_cons]
    exact congrArg ((perform k b c.2).out ++ ·) (ih (step k b c.2))

variable [DecidableEq ι]

/-- What all have written is what every one of them has written. -/
theorem length_flatMap_bytes [Fintype ι] (log : List (ι × Op)) :
    ((log.map Prod.snd).flatMap Op.bytes).length =
      ∑ i, ((ofThread i log).flatMap Op.bytes).length := by
  induction log with
  | nil => exact (Finset.sum_const_zero).symm
  | cons c log ih =>
    simp only [ofThread_cons, List.map_cons, List.flatMap_cons, List.flatMap_append,
      List.length_append, Finset.sum_add_distrib, ih]
    congr 1
    rw [Finset.sum_eq_single c.1]
    · simp
    · intro i _ hi
      rw [if_neg (Ne.symm hi)]
      rfl
    · exact fun hc => absurd (Finset.mem_univ c.1) hc

theorem roomy_of_explains [Fintype ι] {k : Kernel} {b₀ : RingBuffer} {calls : ι → List Op}
    {log : List (ι × Op)}
    {s : Threads Unit (fun _ => RingBuffer) Caller (fun _ => Registers) ι}
    (h : Explains k b₀ calls log s) (hempty : available b₀ = 0)
    (hroom : ∑ i, ((calls i).flatMap Op.bytes).length < b₀.size) :
    b₀.Roomy ((log.map Prod.snd).flatMap Op.bytes).length := by
  have hle : ∑ i, ((ofThread i log).flatMap Op.bytes).length ≤
      ∑ i, ((calls i).flatMap Op.bytes).length := by
    apply Finset.sum_le_sum
    intro i _
    obtain ⟨rest, hrest⟩ := h.order i
    rw [← hrest, List.flatMap_append, List.length_append]
    exact Nat.le_add_right _ _
  rw [Roomy, hempty, length_flatMap_bytes]
  omega

theorem plain_of_explains {k : Kernel} {b₀ : RingBuffer} {calls : ι → List Op}
    {log : List (ι × Op)}
    {s : Threads Unit (fun _ => RingBuffer) Caller (fun _ => Registers) ι}
    (h : Explains k b₀ calls log s) (hcalls : ∀ i, ∀ op ∈ calls i, op.Plain) :
    ∀ op ∈ log.map Prod.snd, op.Plain := by
  intro op hop
  obtain ⟨⟨i, op'⟩, hmem, rfl⟩ := List.mem_map.mp hop
  apply hcalls i
  apply (h.order i).subset
  apply List.mem_map.mpr
  exact ⟨(i, op'), List.mem_filter.mpr ⟨hmem, by simp⟩, rfl⟩

/-- If all that the processes write and all events together are smaller than the buffer, every one
of them is taken whole, whatever the schedule. What the reads return, in the order of the calls,
and then what is unread, is what has been written. -/
theorem small_traffic_is_lossless [Fintype ι] (k : Kernel) (bufferSize : Nat)
    (hsize : (bufferSize : Int) ≤ intMax) (mem : Option (Nat → UInt8)) (b₀ : RingBuffer)
    (hinit : ringBufferInit bufferSize mem = .ok b₀) (calls : ι → List Op)
    (hcalls : ∀ i, ∀ op ∈ calls i, op.Plain)
    (hroom : ∑ i, ((calls i).flatMap Op.bytes).length < bufferSize) (schedule : List ι) :
    ∃ log, Explains k b₀ calls log
        (run (Threads.turn (driverCode k)) (processes b₀ calls) schedule) ∧
      Along (step k) (fun b op => accepted k b op = op.bytes) b₀ (log.map Prod.snd) ∧
      (log.map Prod.snd).flatMap Op.bytes = (answers k b₀ log).flatMap (fun c => c.2.out) ++
        (run (step k) b₀ (log.map Prod.snd)).unread := by
  have hb := (ringBufferInit_valid hsize hinit).stored
  have hunread := ringBufferInit_unread hinit
  have hempty : available b₀ = 0 := by
    rw [← length_unread hb, hunread]
    rfl
  have hsize₀ : b₀.size = bufferSize := by
    obtain ⟨data, -, rfl⟩ := ringBufferInit_eq hinit
    rfl
  obtain ⟨log, a, hcalled, hfollows⟩ := run_invariant_all
    (fun s => ∃ log, Explained k b₀ calls log s)
    (fun s i h => h.elim fun log hlog => (turn_explained hb hlog i).elim fun more hmore =>
      ⟨log ++ more, hmore⟩) ⟨[], explained_processes k b₀ calls⟩ schedule
  have hexplains := explains_of_follows hcalled hfollows
  obtain ⟨hlaw, halong⟩ := run_roomy k hb (plain_of_explains hexplains hcalls)
    (roomy_of_explains hexplains hempty (hsize₀ ▸ hroom))
  refine ⟨log, hexplains, halong, ?_⟩
  rw [flatMap_out_answers, ← hlaw, hunread, List.nil_append]

theorem small_traffic_is_lossless_of_two :
    let k : Kernel := ⟨fun _ => none, fun _ => none⟩
    let b : RingBuffer := ⟨[0, 0, 0, 0], 4, 0, 0⟩
    let calls : Fin 2 → List Op :=
      ![[.write [1, 2] .done .done], [.read 1 .done .done, .simulate [3]]]
    ∃ log, Explains k b calls log
        (run (Threads.turn (driverCode k)) (processes b calls) [0, 1, 0, 1, 1, 0]) ∧
      Along (step k) (fun b op => accepted k b op = op.bytes) b (log.map Prod.snd) ∧
      (log.map Prod.snd).flatMap Op.bytes = (answers k b log).flatMap (fun c => c.2.out) ++
        (run (step k) b (log.map Prod.snd)).unread :=
  small_traffic_is_lossless ⟨fun _ => none, fun _ => none⟩ 4 (by decide) (some fun _ => 0) _ rfl
    _ (by simp [Fin.forall_fin_two, Op.Plain]) (by decide) [0, 1, 0, 1, 1, 0]

end Homework.MouseDriver
