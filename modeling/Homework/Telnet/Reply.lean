import Mathlib.Data.List.TakeWhile
import Homework.Shared.Bytes
import Homework.Shared.Run

/-!
# The reply of a telnet server

The end of `main` in `hw11-telnet/main.c`: the request, the loop that receives the reply to it
into `buf`, and the loop that prints the reply without the echo of the request. A C string is
given by its bytes in front of the terminator.
-/

namespace Homework.Telnet

set_option autoImplicit false

def bufSize : Nat := 5000

/-! ## The request -/

def cmd : List UInt8 := ascii "figlet"

def reqLen (font msg : List UInt8) : Nat := cmd.length + 2 + font.length + 1 + msg.length + 2

/-- What `snprintf` writes, which may write `reqLen` bytes. -/
def request (font msg : List UInt8) : List UInt8 :=
  (cmd ++ ascii " /" ++ font ++ ascii " " ++ msg ++ ascii "\r\n").take (reqLen font msg)

theorem length_request (font msg : List UInt8) : (request font msg).length = reqLen font msg := by
  have hslash : (ascii " /").length = 2 := rfl
  have hspace : (ascii " ").length = 1 := rfl
  have hend : (ascii "\r\n").length = 2 := rfl
  rw [request, List.length_take_of_le]
  simp only [reqLen, List.length_append, hslash, hspace, hend]
  omega

/-! ## Receiving -/

/-- `buf`, `acc_len`, and whether the loop is over. -/
structure Reply where
  buf : List UInt8
  accLen : Nat
  ended : Bool

def start : Reply where
  buf := List.replicate bufSize 0
  accLen := 0
  ended := false

/-- `BUF_SIZE - acc_len`, which is a `size_t`. -/
def room (s : Reply) : Nat := (bufSize + 2 ^ 64 - s.accLen) % 2 ^ 64

/-- A round of the loop. `recv` answers with bytes, with none of them if it returns 0, or not
at all if it fails. -/
def receive (s : Reply) (answer : Option (List UInt8)) : Reply :=
  if s.ended then s
  else
    match answer with
    | some chunk =>
      if chunk.length > 0 then
        { s with buf := copyInto s.buf s.accLen chunk, accLen := s.accLen + chunk.length }
      else { s with ended := true }
    | none => { s with ended := true }

/-- `recv` returns at most as many bytes as it is asked for. -/
def Recv (s : Reply) (answer : Option (List UInt8)) : Prop :=
  ∀ chunk, answer = some chunk → chunk.length ≤ room s

def IsData (answer : Option (List UInt8)) : Bool := decide (answer.getD [] ≠ [])

/-- What has been received before the loop was over. -/
def reply (answers : List (Option (List UInt8))) : List UInt8 :=
  (answers.takeWhile IsData).flatMap fun answer => answer.getD []

theorem receive_of_isData {s : Reply} {answer : Option (List UInt8)} (hended : s.ended = false)
    (h : IsData answer = true) : receive s answer =
      { s with
        buf := copyInto s.buf s.accLen (answer.getD [])
        accLen := s.accLen + (answer.getD []).length } := by
  cases answer with
  | none => cases h
  | some chunk =>
    have hpos : chunk.length > 0 := List.length_pos_of_ne_nil (of_decide_eq_true h)
    simp [receive, hended, hpos]

theorem receive_of_not_isData {s : Reply} {answer : Option (List UInt8)} (hended : s.ended = false)
    (h : IsData answer = false) : receive s answer = { s with ended := true } := by
  cases answer with
  | none => simp [receive, hended]
  | some chunk =>
    have hnil : chunk = [] := not_not.mp (of_decide_eq_false h)
    simp [receive, hended, hnil]

theorem reply_append_of_forall {answers : List (Option (List UInt8))}
    (h : ∀ answer ∈ answers, IsData answer = true) (answer : Option (List UInt8)) :
    reply (answers ++ [answer]) = reply answers ++ answer.getD [] := by
  rw [reply, reply, List.takeWhile_append_of_pos h, List.takeWhile_eq_self_iff.mpr h,
    List.flatMap_append]
  cases hdata : IsData answer with
  | true => simp [hdata]
  | false =>
    have hnil : answer.getD [] = [] := not_not.mp (of_decide_eq_false hdata)
    simp [hdata, hnil]

theorem reply_append_of_not_forall {answers : List (Option (List UInt8))}
    (h : ¬ ∀ answer ∈ answers, IsData answer = true) (answer : Option (List UInt8)) :
    reply (answers ++ [answer]) = reply answers := by
  have hne : (answers.takeWhile IsData).length ≠ answers.length := by
    intro hlen
    apply h
    rw [← List.takeWhile_eq_self_iff]
    exact (List.takeWhile_prefix IsData).eq_of_length hlen
  rw [reply, reply, List.takeWhile_append, if_neg hne]

theorem reply_eq_nil_iff (answers : List (Option (List UInt8))) :
    reply answers = [] ↔ ∀ answer ∈ answers.head?, IsData answer = false := by
  cases answers with
  | nil => simp [reply]
  | cons answer rest =>
    cases hdata : IsData answer with
    | true =>
      have hne : answer.getD [] ≠ [] := of_decide_eq_true hdata
      simp [reply, hdata, hne]
    | false => simp [reply, hdata]

/-- The buffer begins with the reply, and the rest of it is as `memset` left it. -/
structure Holds (answers : List (Option (List UInt8))) (s : Reply) : Prop where
  accLen : s.accLen = (reply answers).length
  fits : (reply answers).length ≤ bufSize
  buf : s.buf = reply answers ++ List.replicate (bufSize - (reply answers).length) 0
  ended : s.ended = false ↔ ∀ answer ∈ answers, IsData answer = true

theorem holds_start : Holds [] start where
  accLen := rfl
  fits := Nat.zero_le _
  buf := rfl
  ended := by simp [start]

theorem copyInto_append_replicate {α : Type} (a : α) (xs ys : List α) (n : Nat) :
    copyInto (xs ++ List.replicate n a) xs.length ys =
      xs ++ ys ++ List.replicate (n - ys.length) a := by
  rw [copyInto, List.take_left, List.drop_length_add_append, List.drop_replicate]

theorem holds_receive {answers : List (Option (List UInt8))} {s : Reply}
    {answer : Option (List UInt8)} (h : Holds answers s) (hrecv : Recv s answer) :
    Holds (answers ++ [answer]) (receive s answer) := by
  obtain ⟨haccLen, hfits, hbuf, hended⟩ := h
  cases hs : s.ended with
  | true =>
    have hnot : ¬ ∀ answer ∈ answers, IsData answer = true := by
      rw [← hended, hs]
      exact Bool.noConfusion
    have hsame : receive s answer = s := if_pos hs
    have hreply := reply_append_of_not_forall hnot answer
    rw [hsame]
    refine ⟨by rw [hreply, haccLen], by rwa [hreply], by rwa [hreply], ?_⟩
    rw [hs]
    constructor
    · exact nofun
    · intro h
      exact absurd (fun answer hmem => h answer (List.mem_append_left _ hmem)) hnot
  | false =>
    have hall := hended.mp hs
    have hreply := reply_append_of_forall hall answer
    cases hdata : IsData answer with
    | true =>
      have hpos : 0 < (answer.getD []).length := List.length_pos_of_ne_nil (of_decide_eq_true hdata)
      have hroom : (answer.getD []).length ≤ room s := by
        cases answer with
        | none => exact Nat.zero_le _
        | some chunk => exact hrecv chunk rfl
      have hroom' : room s = bufSize - s.accLen := by
        rw [haccLen]
        unfold room bufSize at *
        omega
      rw [receive_of_isData hs hdata]
      refine ⟨?_, ?_, ?_, ?_⟩
      · rw [hreply, List.length_append, haccLen]
      · rw [hreply, List.length_append]
        omega
      · rw [hreply, hbuf, haccLen, copyInto_append_replicate, List.length_append, Nat.sub_sub]
      · refine ⟨fun _ => ?_, fun _ => hs⟩
        rw [List.forall_mem_append]
        exact ⟨hall, by simpa using hdata⟩
    | false =>
      have hnil : answer.getD [] = [] := not_not.mp (of_decide_eq_false hdata)
      rw [hnil, List.append_nil] at hreply
      rw [receive_of_not_isData hs hdata]
      exact ⟨by rw [hreply, haccLen], by rwa [hreply], by rwa [hreply], by simp [hdata]⟩

theorem run_holds {answers : List (Option (List UInt8))}
    (hrecv : Along receive Recv start answers) :
    Holds answers (run receive start answers) :=
  run_history_invariant (fun _ _ _ h hrecv => holds_receive h hrecv) holds_start hrecv

/-! ## Printing -/

/-- `acc_len - 1`, which is a `size_t`. -/
def printBound (s : Reply) : Nat := (s.accLen + 2 ^ 64 - 1) % 2 ^ 64

/-- The loop that prints, from `i` on. -/
def printLoop (bound i : Nat) : List Nat :=
  if i < bound then i :: printLoop bound (i + 1) else []
termination_by bound - i

/-- The indices of `buf` that are printed. -/
def printed (font msg : List UInt8) (s : Reply) : List Nat :=
  printLoop (printBound s) (request font msg).length

theorem mem_printLoop {bound i j : Nat} : j ∈ printLoop bound i ↔ i ≤ j ∧ j < bound := by
  induction i using printLoop.induct bound with
  | case1 i hi ih =>
    rw [printLoop, if_pos hi, List.mem_cons, ih]
    omega
  | case2 i hi =>
    rw [printLoop, if_neg hi]
    simp
    omega

theorem printBound_eq {s : Reply} (h : s.accLen ≤ bufSize) :
    printBound s = if s.accLen = 0 then 2 ^ 64 - 1 else s.accLen - 1 := by
  unfold printBound bufSize at *
  split <;> omega

theorem printed_inside_iff {s : Reply} (h : s.accLen ≤ bufSize) (font msg : List UInt8) :
    (∀ i ∈ printed font msg s, (request font msg).length ≤ i ∧ i < s.accLen) ↔
      s.accLen ≠ 0 ∨ 2 ^ 64 - 1 ≤ (request font msg).length := by
  unfold printed
  rw [printBound_eq h]
  generalize (request font msg).length = first
  by_cases hzero : s.accLen = 0
  · rw [if_pos hzero, or_iff_right (not_not.mpr hzero)]
    constructor
    · intro hinside
      by_contra hlt
      have hfirst := hinside first (mem_printLoop.mpr ⟨Nat.le_refl _, Nat.lt_of_not_le hlt⟩)
      omega
    · intro hlong i hi
      have hmem := mem_printLoop.mp hi
      omega
  · rw [if_neg hzero]
    refine ⟨fun _ => Or.inl hzero, fun _ i hi => ?_⟩
    have hmem := mem_printLoop.mp hi
    omega

/-- The first answer decides: without any bytes the bound wraps around. It takes a request of
almost 2^64 bytes for nothing to be printed then. -/
theorem indices_in_reply_iff {answers : List (Option (List UInt8))}
    (hrecv : Along receive Recv start answers) (font msg : List UInt8) :
    ((∀ past, past <+: answers → (run receive start past).accLen ≤ bufSize) ∧
      ∀ i ∈ printed font msg (run receive start answers),
        (request font msg).length ≤ i ∧ i < (run receive start answers).accLen) ↔
      (∃ answer ∈ answers.head?, IsData answer = true) ∨
        2 ^ 64 - 1 ≤ (request font msg).length := by
  have hbound : ∀ past, past <+: answers → (run receive start past).accLen ≤ bufSize := by
    rintro past ⟨rest, rfl⟩
    have h := run_holds ((along_append receive Recv start past rest).mp hrecv).1
    rw [h.accLen]
    exact h.fits
  have hfirst : (run receive start answers).accLen ≠ 0 ↔
      ∃ answer ∈ answers.head?, IsData answer = true := by
    rw [(run_holds hrecv).accLen, Ne, List.length_eq_zero_iff, reply_eq_nil_iff]
    push Not
    simp
  rw [and_iff_right hbound, printed_inside_iff (hbound answers (List.prefix_refl _)), hfirst]

/-- A reply of 16 bytes in two parts, to a request of 13 bytes. -/
def twoParts : List (Option (List UInt8)) :=
  [some (ascii "figlet /"), some (ascii "a b\r\nab\n"), none]

theorem indices_in_reply_iff_of_twoParts :
    (∀ past, past <+: twoParts → (run receive start past).accLen ≤ bufSize) ∧
      ∀ i ∈ printed (ascii "a") (ascii "b") (run receive start twoParts),
        (request (ascii "a") (ascii "b")).length ≤ i ∧
          i < (run receive start twoParts).accLen := by
  have hrecv : Along receive Recv start twoParts := by
    refine ⟨?_, ?_, ?_, trivial⟩
    · rintro _ ⟨⟩
      decide
    · rintro _ ⟨⟩
      decide
    · rintro _ ⟨⟩
  apply (indices_in_reply_iff hrecv (ascii "a") (ascii "b")).mpr
  exact Or.inl ⟨_, rfl, by decide⟩

/-- The server closes the connection, or a second passes, before it sends anything. -/
theorem empty_reply_is_printed :
    ¬ ∀ i ∈ printed (ascii "a") (ascii "b") (run receive start [none]),
      (request (ascii "a") (ascii "b")).length ≤ i ∧ i < (run receive start [none]).accLen := by
  rw [printed_inside_iff (by decide), length_request]
  decide

end Homework.Telnet
