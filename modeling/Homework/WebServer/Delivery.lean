import Homework.Shared.Framing
import Homework.WebServer.Server

/-!
# What the peer is given

The socket does not block, so `send` and `sendfile` may take only a part of what they are
given. `write_res` calls each of them once, and `main` closes the connection after that.
-/

namespace Homework.WebServer

set_option autoImplicit false

/-! ## The responses -/

/-- The header block with these first lines and this length. -/
def closingHeader (first : List (List UInt8)) (hfirst : ∀ line ∈ first, IsLine line) (n : Nat) :
    HeaderBlock where
  lines := first ++ [lengthField ++ ascii (toString n), ascii "Connection: close",
    ascii "Content-Type: text/html"]
  isLine := by
    have hlength : IsLine (lengthField ++ ascii (toString n)) := by
      have hdigit : ∀ b, isDigit b = false → b ∉ ascii (toString n) := by
        intro b hb hmem
        rw [isDigit_of_mem_ascii_toString hmem] at hb
        cases hb
      refine ⟨by simp [lengthField, ascii], ?_, ?_⟩ <;> rw [List.mem_append, not_or]
      · exact ⟨by decide, hdigit 13 (by decide)⟩
      · exact ⟨by decide, hdigit 10 (by decide)⟩
    intro line hline
    rcases List.mem_append.mp hline with hline | hline
    · exact hfirst line hline
    · simp only [List.mem_cons, List.not_mem_nil, or_false] at hline
      rcases hline with rfl | rfl | rfl
      · exact hlength
      · decide
      · decide

theorem contentLength_closingHeader {first : List (List UInt8)}
    (hfirst : ∀ line ∈ first, IsLine line)
    (hfield : ∀ line ∈ first, lengthField.isPrefixOf line = false) (n : Nat) :
    (closingHeader first hfirst n).contentLength = some n := by
  have hnone : first.find? (fun line => lengthField.isPrefixOf line) = none := by
    rw [List.find?_eq_none]
    intro line hline
    rw [hfield line hline]
    exact Bool.false_ne_true
  have hhere : lengthField.isPrefixOf (lengthField ++ ascii (toString n)) = true := by
    rw [List.isPrefixOf_iff_prefix]
    exact List.prefix_append _ _
  have hdigits : (ascii (toString n)).takeWhile isDigit = ascii (toString n) := by
    rw [List.takeWhile_eq_self_iff]
    exact fun b hb => isDigit_of_mem_ascii_toString hb
  unfold HeaderBlock.contentLength closingHeader
  rw [List.find?_append, hnone, Option.none_or, List.find?_cons_of_pos hhere, Option.map_some,
    List.drop_left, hdigits, digitsValue_ascii_toString]

def closing : List UInt8 := ascii "\r\nConnection: close\r\nContent-Type: text/html\r\n\r\n"

theorem closing_eq : closing = crlf ++ ascii "Connection: close" ++ crlf ++
    ascii "Content-Type: text/html" ++ crlf ++ crlf := by
  decide +kernel

theorem bytes_closingHeader {first : List (List UInt8)} (hfirst : ∀ line ∈ first, IsLine line)
    (n : Nat) : (closingHeader first hfirst n).bytes =
      first.flatMap (fun line => line ++ crlf) ++ lengthField ++ ascii (toString n) ++ closing := by
  rw [closing_eq]
  simp [HeaderBlock.bytes, closingHeader]

theorem length_closingHeader {first : List (List UInt8)} (hfirst : ∀ line ∈ first, IsLine line)
    {n : Nat} (hn : n < 10 ^ 19) : (closingHeader first hfirst n).bytes.length ≤
      (first.flatMap fun line => line ++ crlf).length + 83 := by
  have hdigits := length_ascii_toString_le (by decide) hn
  have hfield : lengthField.length = 16 := by decide
  have hclosing : closing.length = 48 := by decide +kernel
  rw [bytes_closingHeader]
  simp only [List.length_append, hfield, hclosing]
  omega

def forbiddenLines : List (List UInt8) := [ascii "HTTP/1.1 403 Forbidden"]
def notFoundLines : List (List UInt8) := [ascii "HTTP/1.1 404 Not Found"]
def okLines : List (List UInt8) := [ascii "HTTP/1.1 200 OK", ascii "Server: chttp"]

theorem isLine_forbiddenLines : ∀ line ∈ forbiddenLines, IsLine line := by decide
theorem isLine_notFoundLines : ∀ line ∈ notFoundLines, IsLine line := by decide
theorem isLine_okLines : ∀ line ∈ okLines, IsLine line := by decide

/-- The number in front of the URL is right: 146 bytes, and those of the URL. -/
theorem forbiddenResponse_eq (url : List UInt8) : ∃ body : List UInt8,
    forbiddenResponse (146 + url.length) url =
        (closingHeader forbiddenLines isLine_forbiddenLines (146 + url.length)).bytes ++ body ∧
      body.length = 146 + url.length := by
  refine ⟨ascii "<html><head><title>403 Forbidden</title></head><body><h1>Forbidden</h1>" ++
      ascii "<p>You don't have permission to access /" ++ url ++
      ascii " on this server!</p></body></html>\n", ?_, ?_⟩
  · have hstart : ascii "HTTP/1.1 403 Forbidden\r\nContent-Length: " =
        forbiddenLines.flatMap (fun line => line ++ crlf) ++ lengthField := by decide
    rw [forbiddenResponse, bytes_closingHeader, hstart]
    simp [closing]
  · have hhead : (ascii
        "<html><head><title>403 Forbidden</title></head><body><h1>Forbidden</h1>").length = 71 := by
      decide +kernel
    have hbefore : (ascii "<p>You don't have permission to access /").length = 40 := by decide
    have hafter : (ascii " on this server!</p></body></html>\n").length = 35 := by decide
    simp only [List.length_append, hhead, hbefore, hafter]
    omega

theorem notFoundResponse_eq : ∃ body : List UInt8, notFoundResponse =
    (closingHeader notFoundLines isLine_notFoundLines 133).bytes ++ body ∧ body.length = 133 := by
  refine ⟨ascii "<html><head><title>404 Not Found</title></head><body><h1>Not Found</h1>" ++
      ascii "The requested URL was not found on this server.</body></html>\n", ?_, ?_⟩
  · have hstart : ascii "HTTP/1.1 404 Not Found\r\nContent-Length: 133\r\n" =
        notFoundLines.flatMap (fun line => line ++ crlf) ++ lengthField ++
          ascii (toString 133) ++ crlf := by decide
    have hend : closing =
        crlf ++ ascii "Connection: close\r\nContent-Type: text/html\r\n\r\n" := by decide +kernel
    rw [notFoundResponse, bytes_closingHeader, hstart, hend]
    simp
  · have hhead : (ascii
        "<html><head><title>404 Not Found</title></head><body><h1>Not Found</h1>").length = 71 := by
      decide +kernel
    have hrest : (ascii "The requested URL was not found on this server.</body></html>\n").length =
        62 := by decide +kernel
    rw [List.length_append, hhead, hrest]

theorem okResponse_eq (size : Nat) :
    okResponse size = (closingHeader okLines isLine_okLines size).bytes := by
  have hstart : ascii "HTTP/1.1 200 OK\r\nServer: chttp\r\nContent-Length: " =
      okLines.flatMap (fun line => line ++ crlf) ++ lengthField := by decide
  rw [okResponse, bytes_closingHeader, hstart, closing]

/-! ## The URL of the request

It fits into its array in every state, and `url_len` is its length. -/

structure UrlFits (req : ReqData) : Prop where
  urlLen : req.urlLen = req.url.length
  length : req.url.length < strLen

theorem urlFits_zeroReq : UrlFits zeroReq := ⟨rfl, by decide⟩

theorem length_parseUrl_lt (line : List UInt8) : (parseUrl line).2.length < strLen := by
  have hnil : ([] : List UInt8).length < strLen := by decide
  unfold parseUrl
  split
  · exact hnil
  · split
    · exact hnil
    · simp only [List.length_take, strLen]
      omega

theorem urlFits_readReq {req req' : ReqData} {recvs : List Recv} (h : UrlFits req)
    (hread : readReq req recvs = some req') : UrlFits req' := by
  unfold readReq at hread
  split at hread
  · cases hread
  · cases hread
    exact ⟨h.urlLen, h.length⟩
  · cases hread
    exact ⟨rfl, length_parseUrl_lt _⟩

theorem urlFits_readEvent {s s' : State} {ev : EpollEvent} {recvs : List Recv}
    (h : UrlFits s.req) (hread : readEvent s ev recvs = some s') : UrlFits s'.req := by
  unfold readEvent at hread
  split at hread
  · obtain ⟨req, hreq, rfl⟩ := Option.map_eq_some_iff.mp hread
    exact urlFits_readReq h hreq
  · cases hread
    exact h

theorem urlFits_writeEvent {s : State} (h : UrlFits s.req) (ev : EpollEvent) (files : Files) :
    UrlFits (writeEvent s ev files).1.req := by
  unfold writeEvent
  split
  · obtain ⟨resBuf, resSize, hreq⟩ := writeRes_with s.req files
    dsimp only
    rw [hreq]
    exact ⟨h.urlLen, h.length⟩
  · exact h

theorem urlFits_handleConn {s : State} (h : UrlFits s.req) (ev : EpollEvent) (answers : Answers) :
    UrlFits (handleConn s ev answers).1.req := by
  unfold handleConn
  dsimp only
  split
  · exact h
  · rename_i s' hread
    have hwritten := urlFits_writeEvent (urlFits_readEvent h hread) ev answers.files
    unfold closeAnswered
    split
    · exact urlFits_zeroReq
    · exact hwritten

theorem urlFits_acceptConn {s : State} (h : UrlFits s.req) (answers : Answers) :
    UrlFits (acceptConn s answers).1.req := by
  unfold acceptConn
  split
  · exact h
  · split
    · exact h
    · dsimp only
      split <;> exact ⟨h.urlLen, h.length⟩

theorem urlFits_step (s : State) (input : Input) (h : UrlFits s.req) :
    UrlFits (step s input).req := by
  unfold step perform
  split
  · exact h
  · split
    · exact h
    · dsimp only
      split
      · apply urlFits_acceptConn
        exact h
      · apply urlFits_handleConn
        exact h
    · exact h

theorem urlFits_run (inputs : List Input) : UrlFits (run step init inputs).req :=
  run_invariant_all (fun s : State => UrlFits s.req) urlFits_step urlFits_zeroReq inputs

/-! ## Delivery -/

/-- How many bytes `send` and `sendfile` have taken. -/
structure Results where
  sent : Nat
  sentFile : Nat

/-- The bytes that are on their way to the peer when the connection is closed, if this is what
stands in the file. -/
def delivered (content : List UInt8) (results : Results) : List Action → List UInt8
  | [] => []
  | .send _ bytes :: actions => bytes.take results.sent ++ delivered content results actions
  | .sendfile _ size :: actions =>
    (content.take size).take results.sentFile ++ delivered content results actions
  | .close _ :: _ => []
  | .recv _ :: actions => delivered content results actions
  | .access _ :: actions => delivered content results actions
  | .openFile _ :: actions => delivered content results actions
  | .ctlDel _ :: actions => delivered content results actions

/-- The text that `write_res` puts into `res_buf`. -/
def response (url : List UInt8) (files : Files) : List UInt8 :=
  if files.eacces then forbiddenResponse (146 + url.length) url
  else match files.opened with
    | none => notFoundResponse
    | some size => okResponse size

/-- How many bytes of a file are to follow the text. -/
def served (files : Files) : Nat := if files.eacces then 0 else files.opened.getD 0

/-- What the client can make out, whatever stands in the file, of what the handling of an event
has delivered. -/
def DeliversFramed (files : Files) (results : Results) (actions : List Action) : Prop :=
  ∀ content : List UInt8, content.length = served files →
    Framed (delivered content results actions)

section Handling
variable {req : ReqData} (hlen : req.urlLen = req.url.length) (hurl : req.url ≠ [])
include hlen hurl

theorem writeRes_delivers {files : Files} (results : Results) {content : List UInt8}
    (hcontent : content.length = served files) (actions : List Action) :
    delivered content results ((writeRes req files).2 ++ actions) =
      (response req.url files).take results.sent ++ content.take results.sentFile ++
        delivered content results actions := by
  have hne : req.urlLen ≠ 0 := by
    rw [hlen]
    exact fun h => hurl (List.eq_nil_of_length_eq_zero h)
  unfold served at hcontent
  unfold writeRes respond response
  rw [if_pos hne]
  split
  · rename_i heacces
    rw [if_pos heacces] at hcontent
    rw [List.eq_nil_of_length_eq_zero hcontent, hlen]
    simp [delivered]
  · rename_i heacces
    rw [if_neg heacces] at hcontent
    cases hopened : files.opened with
    | none =>
      rw [hopened] at hcontent
      rw [List.eq_nil_of_length_eq_zero hcontent]
      simp [delivered]
    | some size =>
      rw [hopened, Option.getD_some] at hcontent
      simp [delivered, ← hcontent]

theorem writeRes_resSize (files : Files) :
    (writeRes req files).1.resSize = (response req.url files).length := by
  have hne : req.urlLen ≠ 0 := by
    rw [hlen]
    exact fun h => hurl (List.eq_nil_of_length_eq_zero h)
  unfold writeRes respond response
  rw [if_pos hne]
  split
  · rw [hlen]
  · cases files.opened <;> rfl

end Handling

/-- The block announces what is behind it in the text, or all of a file. -/
theorem framed_response (url : List UInt8) (files : Files) :
    (served files = 0 ∧ Framed (response url files)) ∨
      ∃ header : HeaderBlock, response url files = header.bytes ∧
        header.contentLength = some (served files) := by
  unfold response served
  split
  · obtain ⟨body, heq, hbody⟩ := forbiddenResponse_eq url
    refine Or.inl ⟨rfl, _, body, heq, ?_⟩
    rw [contentLength_closingHeader _ (by decide), hbody]
  · cases files.opened with
    | none =>
      obtain ⟨body, heq, hbody⟩ := notFoundResponse_eq
      refine Or.inl ⟨rfl, _, body, heq, ?_⟩
      rw [contentLength_closingHeader _ (by decide), hbody]
    | some size =>
      exact Or.inr ⟨_, okResponse_eq size, contentLength_closingHeader _ (by decide) size⟩

/-- `snprintf`, which may write `BUF_SZ - 1` bytes, cuts nothing off. -/
theorem response_fits {url : List UInt8} (hurl : url.length < strLen) {files : Files}
    (hsize : ∀ size, files.opened = some size → size < 2 ^ 63) :
    (response url files).length + 1 < bufSz := by
  unfold strLen at hurl
  unfold response bufSz
  split
  · obtain ⟨body, heq, hbody⟩ := forbiddenResponse_eq url
    have hheader := @length_closingHeader _ isLine_forbiddenLines (146 + url.length) (by omega)
    have hfirst : (forbiddenLines.flatMap fun line => line ++ crlf).length = 24 := by decide
    rw [heq, List.length_append]
    omega
  · cases hopened : files.opened with
    | none =>
      obtain ⟨body, heq, hbody⟩ := notFoundResponse_eq
      have hheader := @length_closingHeader _ isLine_notFoundLines 133 (by decide)
      have hfirst : (notFoundLines.flatMap fun line => line ++ crlf).length = 24 := by decide
      dsimp only
      rw [heq, List.length_append]
      omega
    | some size =>
      have hlt := hsize size hopened
      have hheader := @length_closingHeader _ isLine_okLines size (by omega)
      have hfirst : (okLines.flatMap fun line => line ++ crlf).length = 32 := by decide
      dsimp only
      rw [okResponse_eq]
      omega

theorem response_ne_nil (url : List UInt8) (files : Files) : response url files ≠ [] := by
  rcases framed_response url files with ⟨-, header, body, heq, -⟩ | ⟨header, heq, -⟩
  · simp [heq, HeaderBlock.bytes, crlf]
  · simp [heq, HeaderBlock.bytes, crlf]

theorem handleConn_delivers {s s' : State} {ev : EpollEvent} {answers : Answers}
    (hread : readEvent s ev answers.recvs = some s') (hout : ev.epollout = true)
    (hlen : s'.req.urlLen = s'.req.url.length) (hurl : s'.req.url ≠ []) (results : Results)
    {content : List UInt8} (hcontent : content.length = served answers.files) :
    delivered content results (handleConn s ev answers).2 =
      (response s'.req.url answers.files).take results.sent ++ content.take results.sentFile := by
  have hclose : (closeAnswered { s' with req := (writeRes s'.req answers.files).1 }).2 =
      [.ctlDel (writeRes s'.req answers.files).1.sock,
        .close (writeRes s'.req answers.files).1.sock] := by
    have hsize : (writeRes s'.req answers.files).1.resSize ≠ 0 := by
      rw [writeRes_resSize hlen hurl]
      exact fun h => response_ne_nil _ _ (List.eq_nil_of_length_eq_zero h)
    rw [closeAnswered, if_pos hsize]
  have hactions : (handleConn s ev answers).2 =
      (if ev.epollin then [.recv s.req.sock] else []) ++ ((writeRes s'.req answers.files).2 ++
        [.ctlDel (writeRes s'.req answers.files).1.sock,
          .close (writeRes s'.req answers.files).1.sock]) := by
    rw [← hclose, handleConn, hread]
    simp [writeEvent, hout]
  have hskip : ∀ actions, delivered content results
      ((if ev.epollin then [.recv s.req.sock] else []) ++ actions) =
        delivered content results actions := by
    intro actions
    split <;> rfl
  rw [hactions, hskip, writeRes_delivers hlen hurl results hcontent]
  simp [delivered]

theorem handleConn_framed_iff {s s' : State} (hfits : UrlFits s.req) {ev : EpollEvent}
    {answers : Answers} (hread : readEvent s ev answers.recvs = some s') (hout : ev.epollout = true)
    (hurl : s'.req.url ≠ []) (results : Results) :
    DeliversFramed answers.files results (handleConn s ev answers).2 ↔
      (response s'.req.url answers.files).length ≤ results.sent ∧
        served answers.files ≤ results.sentFile := by
  have hdelivers : ∀ content : List UInt8, content.length = served answers.files →
      delivered content results (handleConn s ev answers).2 =
        (response s'.req.url answers.files).take results.sent ++ content.take results.sentFile := by
    intro content hcontent
    have hlen := (urlFits_readEvent hfits hread).urlLen
    exact handleConn_delivers hread hout hlen hurl results hcontent
  unfold DeliversFramed
  rcases framed_response s'.req.url answers.files with ⟨hserved, hframed⟩ | ⟨header, heq, hcl⟩
  · rw [hserved] at hdelivers ⊢
    rw [← framed_take_iff hframed, and_iff_left (Nat.zero_le _)]
    constructor
    · intro h
      have hnil := h [] rfl
      rwa [hdelivers [] rfl, List.take_nil, List.append_nil] at hnil
    · intro h content hcontent
      rw [hdelivers content hcontent, List.eq_nil_of_length_eq_zero hcontent, List.take_nil,
        List.append_nil]
      exact h
  · rw [heq] at hdelivers ⊢
    constructor
    · intro h
      have hzeros := h (List.replicate (served answers.files) 0) List.length_replicate
      rw [hdelivers _ List.length_replicate, List.take_replicate] at hzeros
      have hall : header.bytes.length ≤ results.sent := by
        by_contra hshort
        exact not_framed_take_zeros (Nat.lt_of_not_le hshort) _ hzeros
      refine ⟨hall, ?_⟩
      rw [List.take_of_length_le hall, framed_append_iff, hcl, List.length_replicate,
        Option.some.injEq] at hzeros
      omega
    · rintro ⟨hall, hfile⟩ content hcontent
      rw [hdelivers content hcontent, List.take_of_length_le hall,
        List.take_of_length_le (hcontent ▸ hfile), framed_append_iff, hcl, hcontent]

/-- In every state of every run the URL fits into its array. Where it does, so does the text into
what `snprintf` may fill. Nothing is sent a second time, so that what the first calls leave over
never comes. -/
theorem response_is_framed_iff {s s' : State} {ev : EpollEvent} {answers : Answers}
    (hread : readEvent s ev answers.recvs = some s') (hout : ev.epollout = true)
    (hurl : s'.req.url ≠ []) : (∀ inputs : List Input, run step init inputs = s → UrlFits s.req) ∧
      (UrlFits s.req →
        ((∀ size, answers.files.opened = some size → size < 2 ^ 63) →
          (response s'.req.url answers.files).length + 1 < bufSz) ∧
        ∀ results : Results, DeliversFramed answers.files results (handleConn s ev answers).2 ↔
          (response s'.req.url answers.files).length ≤ results.sent ∧
            served answers.files ≤ results.sentFile) := by
  constructor
  · rintro inputs rfl
    exact urlFits_run inputs
  · intro hfits
    have hlength := (urlFits_readEvent hfits hread).length
    exact ⟨response_fits hlength, handleConn_framed_iff hfits hread hout hurl⟩

def serverReady : EpollEvent where
  source := .server
  epollin := true
  epollout := false
  epollrdhup := false

def clientReady : EpollEvent where
  source := .conn ⟨0, 4⟩
  epollin := true
  epollout := true
  epollrdhup := false

/-- A connection comes, with a request for `/a`, which is not there. -/
def missing : Answers where
  accept := some 4
  ctl := true
  recvs := [.data (ascii "GET /a \r\n\r\n")]
  files := { eacces := false, opened := none }

/-- The server behind the accept. -/
def connected : State := run step init [.wait [serverReady], .handle missing]

theorem exists_readEvent_connected : ∃ s',
    readEvent connected clientReady missing.recvs = some s' ∧ s'.req.url = ascii "a" := by
  have hurl : (readEvent connected clientReady missing.recvs).map (fun s => s.req.url) =
      some (ascii "a") := by decide +kernel
  exact Option.map_eq_some_iff.mp hurl

theorem response_is_framed_iff_of_missing : DeliversFramed missing.files
    ⟨notFoundResponse.length, 0⟩ (handleConn connected clientReady missing).2 := by
  obtain ⟨s', hread, hurl⟩ := exists_readEvent_connected
  have hne : s'.req.url ≠ [] := by
    rw [hurl]
    decide
  obtain ⟨hreached, hframed⟩ := response_is_framed_iff hread rfl hne
  have hfits : UrlFits connected.req := hreached _ rfl
  exact ((hframed hfits).2 ⟨_, 0⟩).mpr ⟨Nat.le_refl _, Nat.le_refl _⟩

theorem short_send_is_not_framed :
    ¬ DeliversFramed missing.files ⟨10, 0⟩ (handleConn connected clientReady missing).2 := by
  obtain ⟨s', hread, hurl⟩ := exists_readEvent_connected
  have hne : s'.req.url ≠ [] := by
    rw [hurl]
    decide
  have hfits : UrlFits connected.req := urlFits_run _
  rw [handleConn_framed_iff hfits hread rfl hne]
  have hlength : 10 < notFoundResponse.length := by decide +kernel
  exact fun h => Nat.not_le.mpr hlength h.1

end Homework.WebServer
