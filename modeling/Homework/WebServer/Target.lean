import Homework.WebServer.Request

/-!
# What becomes the URL

Every `recv` of `read_req` writes over the start of the buffer, and `parse_url` sees the bytes
of the last one only. The URL is the second word of the piece with which the end of a header
first stands in the buffer, whatever came before.
-/

namespace Homework.WebServer

set_option autoImplicit false

/-- The second word of the string in an array, without its first byte and cut to what `url`
has room for. -/
def target (array : List UInt8) : List UInt8 :=
  ((words [space] (cString array))[1]?.getD []).tail.take (strLen - 1)

/-- The pieces that are received before `recv` fails. -/
def arrived : List Recv → List (List UInt8)
  | .data bytes :: recvs => bytes :: arrived recvs
  | _ => []

/-- The piece with which the end of a header first stands in the buffer, `held` being what
stands there before. -/
def headerPiece (held : List UInt8) : List (List UInt8) → List UInt8
  | [] => []
  | piece :: pieces =>
    let held := copyInto held 0 piece
    if headerEnd <:+: cString held then piece else headerPiece held pieces

/-! ## Parsing -/

section Parts

variable {token tail after : List UInt8}

theorem takeWhile_spaces {ds : List UInt8} (hds : ∀ d ∈ ds, d = space)
    (htoken : ∀ b ∈ token, b ≠ space) (hend : token = [] → tail = [])
    (hnul : ∀ b ∈ after.head?, b = 0) :
    (ds ++ (token ++ (tail ++ after))).takeWhile (fun b => b == space) = ds := by
  apply takeWhile_append_eq
  · simpa using hds
  · intro b hb
    cases token with
    | nil =>
      rw [hend rfl, List.nil_append, List.nil_append] at hb
      rw [hnul b hb]
      rfl
    | cons t token =>
      cases hb
      simpa using htoken b (List.mem_cons_self ..)

theorem takeWhile_token (htoken : ∀ b ∈ token, b ≠ space) (hzero : 0 ∉ token)
    (htail : ∀ d ∈ tail.head?, d = space) (hnul : ∀ b ∈ after.head?, b = 0) :
    (token ++ (tail ++ after)).takeWhile (fun b => b != space && b != 0) = token := by
  apply takeWhile_append_eq
  · intro b hb
    have hb₀ : b ≠ 0 := fun heq => hzero (heq ▸ hb)
    simp [htoken b hb, hb₀]
  · intro b hb
    cases tail with
    | nil => simp [hnul b hb]
    | cons d tail =>
      cases hb
      simp [htail b rfl]

end Parts

/-- `strtok` at a position is `strtok` on the string from there. -/
theorem strtok_at (s : List UInt8) (pos : Nat) :
    Homework.strtok [space] (cString (s.drop pos)) =
      match strtok s pos with
      | none => (none, [])
      | some (token, s, pos) => (some token, cString (s.drop pos)) := by
  obtain ⟨after, hafter, hnul⟩ := exists_eq_cString_append (s.drop pos)
  have hzero := zero_not_mem_cString (s.drop pos)
  obtain ⟨ds, token, tail, hparts, hds, htoken, htail, hend⟩ :=
    exists_strtok_parts [space] (cString (s.drop pos))
  rw [hparts] at hafter hzero
  simp only [List.mem_append, not_or] at hzero
  obtain ⟨-, hzeroToken, hzeroTail⟩ := hzero
  simp only [List.mem_singleton] at hds htoken htail
  simp only [List.append_assoc] at hafter
  have hspaces : (s.drop pos).takeWhile (fun b => b == space) = ds := by
    rw [hafter]
    exact takeWhile_spaces hds htoken hend hnul
  have hdrop : s.drop (pos + ds.length) = token ++ (tail ++ after) := by
    rw [← List.drop_drop, hafter, List.drop_left]
  have htake : (s.drop (pos + ds.length)).takeWhile (fun b => b != space && b != 0) = token := by
    rw [hdrop]
    exact takeWhile_token htoken hzeroToken htail hnul
  have hstop : s.drop (pos + ds.length + token.length) = tail ++ after := by
    rw [← List.drop_drop, hdrop, List.drop_left]
  rw [hparts, strtok_append_of_mem (by simpa using hds)]
  unfold strtok
  simp only [hspaces, htake]
  by_cases hne : token = []
  · rw [if_pos hne, hne, hend hne]
    rfl
  · rw [if_neg hne, strtok_eq hne (by simpa using htoken) (by simpa using htail),
      ← List.head?_drop, hstop]
    cases tail with
    | nil =>
      have hspace : after.head? ≠ some space := by
        intro hb
        cases hnul space hb
      rw [List.nil_append, if_neg hspace]
      dsimp only
      rw [hstop, cString_append List.not_mem_nil hnul]
      rfl
    | cons d tail =>
      have hd : d = space := htail d rfl
      have hlt : pos + ds.length + token.length < pos + ds.length + token.length + 1 := by omega
      rw [List.cons_append, List.head?_cons, hd, if_pos rfl]
      dsimp only
      rw [List.drop_set_of_lt hlt, ← List.drop_drop, hstop, List.cons_append, List.drop_one,
        List.tail_cons, List.tail_cons,
        cString_append (fun hmem => hzeroTail (List.mem_cons_of_mem _ hmem)) hnul]

theorem parseUrl_url (line : List UInt8) : (parseUrl line).2 = target line := by
  unfold parseUrl target
  have hfirst := strtok_at line 0
  rw [List.drop_zero] at hfirst
  rw [words_strtok, hfirst]
  cases strtok line 0 with
  | none => rfl
  | some parsed =>
    obtain ⟨-, line', pos⟩ := parsed
    dsimp only
    have hsecond := strtok_at line' pos
    rw [words_strtok, hsecond]
    cases strtok line' pos with
    | none => rfl
    | some parsed => rfl

/-! ## Receiving -/

theorem copyInto_zero (xs ys : List UInt8) : copyInto xs 0 ys = ys ++ xs.drop ys.length := by
  simp [copyInto]

/-- The NUL that `read_req` writes behind what it has received cuts the string to that. -/
theorem target_set_length (reqBuf piece : List UInt8) :
    target ((copyInto reqBuf 0 piece).set piece.length 0) = target piece := by
  unfold target
  rw [copyInto_zero, List.set_append_right _ _ (Nat.le_refl _), Nat.sub_self,
    cString_append_of_head?]
  cases reqBuf.drop piece.length <;> simp

theorem copyInto_append_zeros (held piece : List UInt8) (n : Nat) :
    copyInto (held ++ List.replicate n 0) 0 piece =
      copyInto held 0 piece ++ List.replicate (n - (piece.length - held.length)) 0 := by
  simp [copyInto_zero, List.drop_append]

/-- The zeros of the array behind what has been received do not count. -/
theorem cString_copyInto_zeros (held piece : List UInt8) (n : Nat) :
    cString (copyInto (held ++ List.replicate n 0) 0 piece) = cString (copyInto held 0 piece) := by
  rw [copyInto_append_zeros]
  apply cString_append_of_head?
  intro b hb
  exact List.eq_of_mem_replicate (List.mem_of_mem_head? hb)

theorem readLoop_spec {held reqBuf : List UInt8} {recvs : List Recv}
    (hbuf : ∃ n, reqBuf = held ++ List.replicate n 0) :
    match readLoop reqBuf recvs with
    | .waiting => Recv.error ∉ recvs
    | .failed _ => headerPiece held (arrived recvs) = []
    | .header reqBuf res =>
      target (reqBuf.set res 0) = target (headerPiece held (arrived recvs)) := by
  induction recvs generalizing held reqBuf with
  | nil => simp [readLoop]
  | cons recv recvs ih =>
    cases recv with
    | error => rfl
    | data piece =>
      obtain ⟨n, rfl⟩ := hbuf
      unfold readLoop arrived headerPiece
      dsimp only
      rw [cString_copyInto_zeros]
      by_cases hheader : headerEnd <:+: cString (copyInto held 0 piece)
      · rw [if_pos hheader, if_pos hheader]
        exact target_set_length _ _
      · rw [if_neg hheader, if_neg hheader]
        have hrest := ih ⟨_, copyInto_append_zeros held piece n⟩
        generalize readLoop _ recvs = loop at hrest ⊢
        cases loop with
        | waiting => simpa using hrest
        | failed reqBuf => exact hrest
        | header reqBuf res => exact hrest

theorem readReq_url {recvs : List Recv} {req : ReqData} (h : readReq zeroReq recvs = some req) :
    req.url = target (headerPiece [] (arrived recvs)) ∧ req.urlLen = req.url.length := by
  have hloop := @readLoop_spec [] zeroReq.reqBuf recvs ⟨bufSz, rfl⟩
  unfold readReq at h
  split at h
  · cases h
  · rename_i reqBuf hread
    cases h
    rw [hread] at hloop
    dsimp only at hloop
    rw [hloop]
    exact ⟨rfl, rfl⟩
  · rename_i reqBuf res hread
    cases h
    rw [hread] at hloop
    exact ⟨(parseUrl_url _).trans hloop, rfl⟩

theorem readReq_of_error {recvs : List Recv} (h : Recv.error ∈ recvs) :
    ∃ req, readReq zeroReq recvs = some req := by
  have hloop := @readLoop_spec [] zeroReq.reqBuf recvs ⟨bufSz, rfl⟩
  unfold readReq
  split
  · rename_i hread
    rw [hread] at hloop
    exact absurd h hloop
  · exact ⟨_, rfl⟩
  · exact ⟨_, rfl⟩

/-! ## Segments -/

/-- Successive calls of `recv` return the pieces, and then there is nothing more to receive. -/
def arriving (pieces : List (List UInt8)) : List Recv := pieces.map Recv.data ++ [Recv.error]

/-- Not longer than the buffer leaves room for, with the end of a header only at its end. -/
structure IsRequest (request : List UInt8) : Prop where
  short : request.length ≤ bufSz - 1
  ended : headerEnd <:+ request
  once : ¬ headerEnd <:+: request.dropLast

def SameUrl (request : List UInt8) (pieces : List (List UInt8)) : Prop :=
  ∃ req req', readReq zeroReq (arriving pieces) = some req ∧
    readReq zeroReq (arriving [request]) = some req' ∧
    req.url = req'.url ∧ req.urlLen = req'.urlLen

theorem arrived_arriving (pieces : List (List UInt8)) :
    arrived (arriving pieces) = pieces := by
  induction pieces with
  | nil => rfl
  | cons piece pieces ih => exact congrArg (piece :: ·) ih

theorem sameUrl_iff (request : List UInt8) (pieces : List (List UInt8)) :
    SameUrl request pieces ↔
      target (headerPiece [] pieces) = target (headerPiece [] [request]) := by
  obtain ⟨req, hread⟩ := @readReq_of_error (arriving pieces) (by simp [arriving])
  obtain ⟨req', hread'⟩ := @readReq_of_error (arriving [request]) (by simp [arriving])
  obtain ⟨hurl, hlen⟩ := readReq_url hread
  obtain ⟨hurl', hlen'⟩ := readReq_url hread'
  rw [arrived_arriving] at hurl hurl'
  rw [← hurl, ← hurl']
  constructor
  · rintro ⟨r, r', hr, hr', hsame, -⟩
    cases hread.symm.trans hr
    cases hread'.symm.trans hr'
    exact hsame
  · intro hsame
    exact ⟨req, req', hread, hread', hsame, by rw [hlen, hlen', hsame]⟩

/-- No `recv` finds the end of a header behind a NUL. -/
theorem headerPiece_whole {request : List UInt8} (h : IsRequest request) :
    headerPiece [] [request] = if 0 ∈ request then [] else request := by
  have hheld : copyInto [] 0 request = request := by simp [copyInto]
  unfold headerPiece
  dsimp only
  rw [hheld]
  by_cases hnul : 0 ∈ request
  · rw [if_pos hnul, if_neg]
    · rfl
    · intro hheader
      obtain ⟨after, hafter, -⟩ := exists_eq_cString_append request
      have hne : after ≠ [] := by
        rintro rfl
        rw [hafter, List.append_nil] at hnul
        exact zero_not_mem_cString request hnul
      apply h.once
      rw [hafter, List.dropLast_append_of_ne_nil hne]
      exact hheader.trans (List.prefix_append _ _).isInfix
  · rw [if_neg hnul, cString_eq_self hnul, if_pos h.ended.isInfix]

/-- Only the piece that completes a header counts, and it must have the same second word as
the whole request. -/
theorem segments_agree_iff {request : List UInt8} (h : IsRequest request)
    (pieces : List (List UInt8)) :
    SameUrl request pieces ↔
      target (headerPiece [] pieces) = if 0 ∈ request then [] else target request := by
  rw [sameUrl_iff, headerPiece_whole h]
  split
  · rfl
  · rfl

def pathThenEnd : List (List UInt8) := [ascii "GET /a ", ascii "\r\n\r\n"]

theorem isRequest_pathThenEnd : IsRequest pathThenEnd.flatten where
  short := by decide
  ended := by decide
  once := by decide

/-- The same request, cut within its first word. -/
def splitMethod : List (List UInt8) := [ascii "GE", ascii "T /a \r\n\r\n"]

theorem segments_agree_iff_of_split_method :
    splitMethod.flatten = pathThenEnd.flatten ∧ SameUrl pathThenEnd.flatten splitMethod :=
  ⟨by decide, (segments_agree_iff isRequest_pathThenEnd splitMethod).mpr (by decide)⟩

/-- The path has come before the end of the header, and is lost. -/
theorem path_before_the_end_is_lost : ¬ ∀ request pieces, IsRequest request →
    pieces.flatten = request → [] ∉ pieces → SameUrl request pieces := by
  intro h
  have hsame := h _ pathThenEnd isRequest_pathThenEnd rfl (by decide)
  rw [sameUrl_iff, headerPiece_whole isRequest_pathThenEnd] at hsame
  revert hsame
  decide

end Homework.WebServer
