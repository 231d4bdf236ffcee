import Homework.WebServer.Target

/-!
# Peers that stop

The loop of `read_req` ends when `recv` fails or when the buffer holds the end of a header.
A peer that closes makes every further `recv` return 0, which is neither: nothing is written
and the loop looks through the same buffer for ever. The NUL behind what was received is
written at the number of bytes received, which may be all of `BUF_SZ`.
-/

namespace Homework.WebServer

set_option autoImplicit false

/-- What `recv` returns, each time, when there are no more bytes to come. -/
inductive Ending where
  | closed
  | failed
  deriving DecidableEq

def Ending.recv : Ending → Recv
  | closed => .data []
  | failed => .error

def delivering (chunks : List (List UInt8)) (ending : Ending) (n : Nat) : List Recv :=
  chunks.map Recv.data ++ List.replicate n ending.recv

/-- The index at which `read_req` writes its NUL, once it has found the end of a header. -/
def terminatorIndex (req : ReqData) (recvs : List Recv) : Option Nat :=
  match readLoop req.reqBuf recvs with
  | .header _ res => some res
  | _ => none

structure SurvivesPeer (chunks : List (List UInt8)) (ending : Ending) : Prop where
  returns : ∃ n, (readReq zeroReq (delivering chunks ending n)).isSome
  inBounds : ∀ n, ∀ i ∈ terminatorIndex zeroReq (delivering chunks ending n), i < bufSz

theorem readReq_isSome_iff (req : ReqData) (recvs : List Recv) :
    (readReq req recvs).isSome ↔ readLoop req.reqBuf recvs ≠ .waiting := by
  unfold readReq
  cases readLoop req.reqBuf recvs <;> simp

/-- The chunks end the loop with the one that completes a header, or leave it looking
through a buffer that holds none. -/
theorem readLoop_chunks {held reqBuf : List UInt8} {chunks : List (List UInt8)}
    (hchunks : [] ∉ chunks) (hbuf : ∃ n, reqBuf = held ++ List.replicate n 0)
    (hno : ¬ headerEnd <:+: cString reqBuf) (recvs : List Recv) :
    if headerPiece held chunks = [] then
      ∃ reqBuf', ¬ headerEnd <:+: cString reqBuf' ∧
        readLoop reqBuf (chunks.map Recv.data ++ recvs) = readLoop reqBuf' recvs
    else
      ∃ reqBuf', readLoop reqBuf (chunks.map Recv.data ++ recvs) =
        .header reqBuf' (headerPiece held chunks).length := by
  induction chunks generalizing held reqBuf with
  | nil =>
    rw [headerPiece, if_pos rfl]
    exact ⟨reqBuf, hno, rfl⟩
  | cons piece chunks ih =>
    obtain ⟨n, rfl⟩ := hbuf
    simp only [List.mem_cons, not_or] at hchunks
    obtain ⟨hpiece, hchunks⟩ := hchunks
    rw [List.map_cons, List.cons_append, headerPiece, readLoop]
    by_cases hheader : headerEnd <:+: cString (copyInto held 0 piece)
    · have hheader' := hheader
      rw [← cString_copyInto_zeros held piece n] at hheader'
      rw [if_pos hheader, if_pos hheader', if_neg (Ne.symm hpiece)]
      exact ⟨_, rfl⟩
    · have hheader' := hheader
      rw [← cString_copyInto_zeros held piece n] at hheader'
      rw [if_neg hheader, if_neg hheader']
      exact ih hchunks ⟨_, copyInto_append_zeros held piece n⟩ hheader'

theorem readLoop_closed {reqBuf : List UInt8} (hno : ¬ headerEnd <:+: cString reqBuf) (n : Nat) :
    readLoop reqBuf (List.replicate n Ending.closed.recv) = .waiting := by
  induction n with
  | zero => rfl
  | succ n ih =>
    rw [List.replicate_succ, Ending.recv, readLoop, copyInto_nil, if_neg hno]
    exact ih

theorem headerEnd_not_in_zeroReq : ¬ headerEnd <:+: cString zeroReq.reqBuf := by
  have hempty : cString zeroReq.reqBuf = [] := by
    apply @cString_append [] (List.replicate bufSz 0) List.not_mem_nil
    intro b hb
    exact List.eq_of_mem_replicate (List.mem_of_mem_head? hb)
  rw [hempty, List.infix_nil]
  exact List.cons_ne_nil _ _

theorem survivesPeer_of_headerPiece {chunks : List (List UInt8)} (hchunks : [] ∉ chunks)
    (hheader : headerPiece [] chunks ≠ []) (ending : Ending) :
    SurvivesPeer chunks ending ↔ (headerPiece [] chunks).length < bufSz := by
  have hloop : ∀ n, ∃ reqBuf, readLoop zeroReq.reqBuf (delivering chunks ending n) =
      .header reqBuf (headerPiece [] chunks).length := by
    intro n
    have hspec := @readLoop_chunks [] zeroReq.reqBuf chunks hchunks ⟨bufSz, rfl⟩
      headerEnd_not_in_zeroReq (List.replicate n ending.recv)
    rw [if_neg hheader] at hspec
    exact hspec
  have hindex : ∀ n, terminatorIndex zeroReq (delivering chunks ending n) =
      some (headerPiece [] chunks).length := by
    intro n
    obtain ⟨reqBuf, hread⟩ := hloop n
    rw [terminatorIndex, hread]
  constructor
  · intro h
    exact h.inBounds 0 _ (hindex 0)
  · intro hlt
    refine ⟨⟨0, ?_⟩, ?_⟩
    · obtain ⟨reqBuf, hread⟩ := hloop 0
      rw [readReq_isSome_iff, hread]
      exact fun h => by cases h
    · intro n i hi
      rw [hindex n] at hi
      cases hi
      exact hlt

theorem survivesPeer_of_no_headerPiece {chunks : List (List UInt8)} (hchunks : [] ∉ chunks)
    (hheader : headerPiece [] chunks = []) (ending : Ending) :
    SurvivesPeer chunks ending ↔ ending = .failed := by
  have hloop : ∀ n, ∃ reqBuf, ¬ headerEnd <:+: cString reqBuf ∧
      readLoop zeroReq.reqBuf (delivering chunks ending n) =
        readLoop reqBuf (List.replicate n ending.recv) := by
    intro n
    have hspec := @readLoop_chunks [] zeroReq.reqBuf chunks hchunks ⟨bufSz, rfl⟩
      headerEnd_not_in_zeroReq (List.replicate n ending.recv)
    rw [if_pos hheader] at hspec
    exact hspec
  cases ending with
  | closed =>
    refine ⟨fun h => ?_, fun h => by cases h⟩
    obtain ⟨n, hn⟩ := h.returns
    obtain ⟨reqBuf, hno, hread⟩ := hloop n
    rw [readReq_isSome_iff, hread] at hn
    exact absurd (readLoop_closed hno n) hn
  | failed =>
    refine ⟨fun _ => rfl, fun _ => ⟨⟨1, ?_⟩, ?_⟩⟩
    · obtain ⟨reqBuf, -, hread⟩ := hloop 1
      rw [readReq_isSome_iff, hread]
      exact fun h => by cases h
    · intro n i hi
      obtain ⟨reqBuf, -, hread⟩ := hloop n
      rw [terminatorIndex, hread] at hi
      cases n <;> cases hi

/-- `read_req` survives exactly those peers that complete a header with a chunk that does
not fill the buffer, or complete none and let `recv` fail. -/
theorem read_req_survives_iff (chunks : List (List UInt8)) (hchunks : [] ∉ chunks)
    (ending : Ending) :
    SurvivesPeer chunks ending ↔
      if headerPiece [] chunks = [] then ending = .failed
      else (headerPiece [] chunks).length < bufSz := by
  split
  · rename_i hheader
    exact survivesPeer_of_no_headerPiece hchunks hheader ending
  · rename_i hheader
    exact survivesPeer_of_headerPiece hchunks hheader ending

theorem read_req_survives_iff_of_one_chunk :
    SurvivesPeer [ascii "GET /a HTTP/1.1\r\n\r\n"] .closed ↔
      if headerPiece [] [ascii "GET /a HTTP/1.1\r\n\r\n"] = [] then Ending.closed = .failed
      else (headerPiece [] [ascii "GET /a HTTP/1.1\r\n\r\n"]).length < bufSz :=
  read_req_survives_iff [ascii "GET /a HTTP/1.1\r\n\r\n"] (by decide) .closed

def fullChunk : List UInt8 := List.replicate 2044 97 ++ headerEnd

/-- A peer that connects and closes; and one whose header fills the buffer to its end. -/
theorem read_req_does_not_survive :
    ¬ SurvivesPeer [] .closed ∧ fullChunk.length = bufSz ∧ ¬ SurvivesPeer [fullChunk] .failed := by
  have hlength : fullChunk.length = bufSz := by
    rw [fullChunk, List.length_append, List.length_replicate]
    rfl
  refine ⟨?_, hlength, ?_⟩
  · rw [survivesPeer_of_no_headerPiece (by simp) rfl]
    exact fun h => by cases h
  · have hnul : 0 ∉ fullChunk := by
      rw [fullChunk, List.mem_append, List.mem_replicate]
      decide
    have hheld : copyInto [] 0 fullChunk = fullChunk := by simp [copyInto]
    have hends : headerEnd <:+: fullChunk := (List.suffix_append _ headerEnd).isInfix
    have hpiece : headerPiece [] [fullChunk] = fullChunk := by
      rw [headerPiece, hheld, cString_eq_self hnul, if_pos hends]
    have hne : fullChunk ≠ [] := List.append_ne_nil_of_right_ne_nil _ (List.cons_ne_nil _ _)
    rw [survivesPeer_of_headerPiece (by simpa using hne.symm) (by rw [hpiece]; exact hne), hpiece,
      hlength]
    exact Nat.lt_irrefl _

end Homework.WebServer
