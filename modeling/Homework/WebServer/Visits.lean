import Homework.WebServer.Connections
import Homework.WebServer.Target

/-!
# Clients in turn

Clients that come one after another, each with its request in one piece, find the server as the
ones before have left it. Whoever asks for an empty path is not answered, and stays registered:
`parse_url` drops the slash, and `write_res` takes an empty URL for no request at all.
-/

namespace Homework.WebServer

set_option autoImplicit false

/-- A client, with what the file system says of the file that it asks for. -/
structure Client where
  sock : Int
  request : List UInt8
  files : Files

namespace Client

def url (c : Client) : List UInt8 := target c.request

/-- The request fits into the buffer, with a NUL behind it, and holds the end of a header. -/
structure Whole (c : Client) : Prop where
  nul : 0 ∉ c.request
  ended : headerEnd <:+: c.request
  short : c.request.length < bufSz

/-- The client connects, is accepted, sends its request, and can be written to. -/
def inputs (id : Nat) (c : Client) : List Input :=
  [.wait [serverEvent], .handle (accepted c.sock), .wait [⟨.conn ⟨id, c.sock⟩, true, true, false⟩],
    .handle ⟨none, false, [.data c.request], c.files⟩]

def answer (c : Client) : List Action :=
  .access c.url ::
    if c.files.eacces then [.send c.sock (forbiddenResponse (146 + c.url.length) c.url)]
    else .openFile c.url ::
      match c.files.opened with
      | none => [.send c.sock notFoundResponse]
      | some size => [.send c.sock (okResponse size), .sendfile c.sock size]

def actions (c : Client) : List Action :=
  .recv c.sock :: if c.url = [] then [] else c.answer ++ [.ctlDel c.sock, .close c.sock]

end Client

def visits : Nat → List Client → List Input
  | _, [] => []
  | id, c :: clients => c.inputs id ++ visits (id + 1) clients

/-- The connections that stay, by the order of the accepts. -/
def unanswered : Nat → List Client → List Conn
  | _, [] => []
  | id, c :: clients =>
    if c.url = [] then ⟨id, c.sock⟩ :: unanswered (id + 1) clients else unanswered (id + 1) clients

/-! ## One client -/

/-- A whole request is read as it is, whatever the buffer holds from before. -/
theorem readReq_whole {c : Client} (h : c.Whole) (req : ReqData) :
    ∃ reqBuf, readReq req [.data c.request] =
      some { req with
        reqBuf
        reqSize := c.request.length
        url := c.url
        urlLen := c.url.length } := by
  have hheader : headerEnd <:+: cString (copyInto req.reqBuf 0 c.request) := by
    rw [copyInto_zero]
    obtain ⟨before, after, hparts⟩ := h.ended
    have hprefix : c.request <+: cString (c.request ++ req.reqBuf.drop c.request.length) := by
      unfold cString
      rw [List.takeWhile_append_of_pos]
      · exact List.prefix_append _ _
      · intro b hb
        have hb₀ : b ≠ 0 := fun hzero => h.nul (hzero ▸ hb)
        simpa using hb₀
    exact h.ended.trans hprefix.isInfix
  have hurl := (parseUrl_url ((copyInto req.reqBuf 0 c.request).set c.request.length 0)).trans
    (target_set_length req.reqBuf c.request)
  rcases hparse : parseUrl ((copyInto req.reqBuf 0 c.request).set c.request.length 0) with
    ⟨reqBuf, url⟩
  rw [hparse] at hurl
  obtain rfl : url = c.url := hurl
  refine ⟨reqBuf, ?_⟩
  unfold readReq
  rw [readLoop, if_pos hheader]
  dsimp only
  rw [hparse]

theorem forbiddenResponse_ne_nil (n : Nat) (url : List UInt8) : forbiddenResponse n url ≠ [] := by
  unfold forbiddenResponse
  exact List.append_ne_nil_of_right_ne_nil _ (by decide)

theorem notFoundResponse_ne_nil : notFoundResponse ≠ [] := by
  unfold notFoundResponse
  exact List.append_ne_nil_of_right_ne_nil _ (by decide)

theorem okResponse_ne_nil (n : Nat) : okResponse n ≠ [] := by
  unfold okResponse
  exact List.append_ne_nil_of_right_ne_nil _ (by decide)

theorem writeRes_empty {req : ReqData} (hlen : req.urlLen = 0) (files : Files) :
    writeRes req files = (req, []) := if_neg (not_not.mpr hlen)

/-- A URL that is not empty gets one answer, and the size of a response with it. -/
theorem writeRes_url {c : Client} {req : ReqData} (hsock : req.sock = c.sock)
    (hurl : req.url = c.url) (hlen : req.urlLen = c.url.length) (hne : c.url ≠ []) :
    ∃ req', writeRes req c.files = (req', c.answer) ∧ req'.sock = c.sock ∧ req'.resSize ≠ 0 := by
  have hpos : c.url.length ≠ 0 := mt List.eq_nil_of_length_eq_zero hne
  unfold writeRes Client.answer respond
  rw [hlen, if_pos hpos, hsock, hurl]
  split
  · exact ⟨_, rfl, rfl, mt List.eq_nil_of_length_eq_zero (forbiddenResponse_ne_nil _ _)⟩
  · cases c.files.opened with
    | none => exact ⟨_, rfl, rfl, mt List.eq_nil_of_length_eq_zero notFoundResponse_ne_nil⟩
    | some size => exact ⟨_, rfl, rfl, mt List.eq_nil_of_length_eq_zero (okResponse_ne_nil size)⟩

/-- The server waits for events, and what it has in `req` is answered or not to be answered. -/
structure Waiting (s : State) : Prop where
  reading : s.reading = false
  pending : s.pending = []
  answered : s.req.resSize = 0
  count : s.evCount = 1 + s.conns.length

theorem waiting_init : Waiting init := ⟨rfl, rfl, rfl, rfl⟩

/-- The state with one connection more. -/
def letIn (s : State) (sock : Int) : State :=
  { s with
    req := { s.req with sock }
    conns := s.conns ++ [⟨s.nextId, sock⟩]
    nextId := s.nextId + 1
    evCount := s.evCount + 1 }

theorem perform_wait {s : State} (hreading : s.reading = false) (hpending : s.pending = [])
    (events : List EpollEvent) : perform s (.wait events) = ({ s with pending := events }, []) := by
  simp [perform, hreading, hpending]

theorem perform_accepted {s : State} (h : Waiting s) (hroom : s.conns.length < 126) (sock : Int) :
    perform { s with pending := [serverEvent] } (.handle (accepted sock)) = (letIn s sock, []) := by
  have hcount : s.evCount ≠ epollMax - 1 := by
    have hcount := h.count
    unfold epollMax
    omega
  have hsame : { s with pending := [] } = s := by
    rw [← h.pending]
  rw [@perform_server { s with pending := [serverEvent] } serverEvent h.reading [] rfl rfl,
    hsame]
  unfold acceptConn accepted
  dsimp only
  rw [if_neg hcount]
  rfl

/-- What the branch of a connection does with a request that comes whole. -/
theorem handleConn_whole {c : Client} (h : c.Whole) {s : State} (hsock : s.req.sock = c.sock)
    (hanswered : s.req.resSize = 0) (source : Source) :
    ∃ req heard, req.resSize = 0 ∧
      handleConn s ⟨source, true, true, false⟩ ⟨none, false, [.data c.request], c.files⟩ =
        ({ s with
            req
            heard
            conns := if c.url = [] then s.conns else s.conns.filter fun c' => c'.sock ≠ c.sock
            evCount := if c.url = [] then s.evCount else s.evCount - 1 }, c.actions) := by
  obtain ⟨reqBuf, hread⟩ := readReq_whole h s.req
  generalize hreq : ReqData.mk _ _ _ _ _ _ _ = req at hread
  have hsock' : req.sock = c.sock := by rw [← hreq, ← hsock]
  have hsize : req.resSize = 0 := by rw [← hreq, ← hanswered]
  have hurl : req.url = c.url := by rw [← hreq]
  have hlen : req.urlLen = c.url.length := by rw [← hreq]
  unfold handleConn readEvent
  dsimp only
  rw [if_pos rfl, hread]
  dsimp only [Option.map_some]
  unfold writeEvent
  dsimp only
  rw [if_pos rfl, hsock]
  by_cases hempty : c.url = []
  · rw [hempty] at hlen
    rw [writeRes_empty hlen]
    unfold closeAnswered Client.actions
    dsimp only
    rw [if_neg (not_not.mpr hsize), if_pos hempty, if_pos hempty, if_pos hempty]
    exact ⟨req, _, hsize, rfl⟩
  · obtain ⟨req', hwrite, hsock'', hpos⟩ := writeRes_url hsock' hurl hlen hempty
    rw [hwrite]
    unfold closeAnswered Client.actions
    dsimp only
    rw [if_pos hpos, if_neg hempty, if_neg hempty, if_neg hempty, hsock'']
    exact ⟨zeroReq, _, rfl, rfl⟩

/-- What the kernel promises of the one input with which a whole request comes. -/
theorem kernel_whole {c : Client} (h : c.Whole) {s : State}
    (hregistered : ∃ c' ∈ s.conns, c'.sock = s.req.sock) :
    Kernel s (.handle ⟨none, false, [.data c.request], c.files⟩) := by
  refine ⟨fun conn hconn => (by cases hconn), fun bytes hbytes => ?_, fun hno => ?_⟩
  · obtain rfl := Recv.data.inj (List.mem_singleton.mp hbytes)
    exact Nat.le_of_lt h.short
  · obtain ⟨c', hc', hsock⟩ := hregistered
    exact absurd hsock (hno c' hc')

theorem visit {s : State} {c : Client} (h : Waiting s) (hc : c.Whole)
    (hroom : s.conns.length < 126) (hfresh : ∀ c' ∈ s.conns, c'.sock ≠ c.sock) :
    let s' := run step s (c.inputs s.nextId)
    Along step Kernel s (c.inputs s.nextId) ∧
      (trace step (fun s input => (perform s input).2) s (c.inputs s.nextId)).flatten = c.actions ∧
      Waiting s' ∧ s'.nextId = s.nextId + 1 ∧ s'.conns = s.conns ++ unanswered s.nextId [c] := by
  let ev : EpollEvent := ⟨.conn ⟨s.nextId, c.sock⟩, true, true, false⟩
  let entered := letIn s c.sock
  have hmem : ⟨s.nextId, c.sock⟩ ∈ entered.conns := List.mem_append_right _ List.mem_cons_self
  have hconns : entered.conns = s.conns ++ [⟨s.nextId, c.sock⟩] := rfl
  have hkept : (entered.conns.filter fun c' => c'.sock ≠ c.sock) = s.conns := by
    have hall : (s.conns.filter fun c' => c'.sock ≠ c.sock) = s.conns :=
      List.filter_eq_self.mpr fun c' hc' => by simpa using hfresh c' hc'
    rw [hconns, List.filter_append, hall]
    simp
  obtain ⟨req, heard, hsize, hhandle⟩ :=
    @handleConn_whole c hc { entered with pending := [] } rfl h.answered ev.source
  have hconnect := perform_wait h.reading h.pending [serverEvent]
  have haccept := perform_accepted h hroom c.sock
  have hready := @perform_wait entered h.reading h.pending [ev]
  have hanswer := (@perform_conn { entered with pending := [ev] } ev ⟨s.nextId, c.sock⟩ h.reading
    [] rfl rfl ⟨none, false, [.data c.request], c.files⟩).trans hhandle
  have hconnect' := congrArg Prod.fst hconnect
  have haccept' := congrArg Prod.fst haccept
  have hready' := congrArg Prod.fst hready
  have hanswer' := congrArg Prod.fst hanswer
  rw [← step] at hconnect' haccept' hready' hanswer'
  dsimp only at hconnect' haccept' hready' hanswer'
  unfold Client.inputs
  simp only [run_cons, run_nil, trace_cons, trace_nil, along_cons]
  rw [hconnect', haccept', hready', hanswer', hconnect, haccept, hready, hanswer]
  refine ⟨⟨kernel_wait_server _, kernel_accepted hfresh, kernel_wait_conn hmem _,
    kernel_whole hc ⟨_, hmem, rfl⟩, trivial⟩, ?_, ?_, rfl, ?_⟩
  · simp
  · have hcount := h.count
    refine ⟨h.reading, rfl, hsize, ?_⟩
    dsimp only
    split
    · rw [hconns, List.length_append, List.length_singleton]
      have hentered : entered.evCount = s.evCount + 1 := rfl
      omega
    · rw [hkept]
      have hentered : entered.evCount = s.evCount + 1 := rfl
      omega
  · dsimp only
    rw [unanswered, unanswered]
    split
    · exact hconns
    · rw [hkept, List.append_nil]

theorem unanswered_cons (id : Nat) (c : Client) (clients : List Client) :
    unanswered id (c :: clients) = unanswered id [c] ++ unanswered (id + 1) clients := by
  simp only [unanswered]
  split
  · rfl
  · rfl

theorem visits_spec {s : State} {clients : List Client} (h : Waiting s)
    (hwhole : ∀ c ∈ clients, c.Whole)
    (hfresh : ∀ c ∈ clients, ∀ c' ∈ s.conns, c'.sock ≠ c.sock)
    (hdistinct : clients.Pairwise fun c c' => c.url = [] → c.sock ≠ c'.sock)
    (hroom : s.conns.length + (clients.filter fun c => c.url = []).length < 126) :
    let s' := run step s (visits s.nextId clients)
    Along step Kernel s (visits s.nextId clients) ∧
      (trace step (fun s input => (perform s input).2) s (visits s.nextId clients)).flatten =
        clients.flatMap Client.actions ∧
      Waiting s' ∧ s'.conns = s.conns ++ unanswered s.nextId clients := by
  induction clients generalizing s with
  | nil => exact ⟨trivial, rfl, h, (List.append_nil _).symm⟩
  | cons c clients ih =>
    rw [List.pairwise_cons] at hdistinct
    have hlength : (unanswered s.nextId [c]).length +
        (clients.filter fun c => c.url = []).length =
          ((c :: clients).filter fun c => c.url = []).length := by
      rw [unanswered, unanswered]
      split
      · rename_i hurl
        rw [List.filter_cons_of_pos (by simpa using hurl), List.length_cons, List.length_cons]
        exact Nat.add_comm _ _
      · rename_i hurl
        rw [List.filter_cons_of_neg (by simpa using hurl), List.length_nil]
        omega
    obtain ⟨hkernel, hactions, hwaiting, hid, hconns⟩ := visit h (hwhole c List.mem_cons_self)
      (by omega) (hfresh c List.mem_cons_self)
    obtain ⟨hkernel', hactions', hwaiting', hconns'⟩ := ih hwaiting
      (fun c' hc' => hwhole c' (List.mem_cons_of_mem c hc'))
      (by
        intro c' hc' c'' hc''
        rw [hconns] at hc''
        rcases List.mem_append.mp hc'' with hc'' | hc''
        · exact hfresh c' (List.mem_cons_of_mem c hc') c'' hc''
        · rw [unanswered, unanswered] at hc''
          split at hc''
          · rename_i hurl
            rw [List.mem_singleton.mp hc'']
            exact hdistinct.1 c' hc' hurl
          · cases hc'')
      hdistinct.2
      (by
        rw [hconns, List.length_append]
        omega)
    rw [hid] at hkernel' hactions' hwaiting' hconns'
    rw [visits]
    refine ⟨(along_append ..).mpr ⟨hkernel, hkernel'⟩, ?_, ?_, ?_⟩
    · rw [trace_append, List.flatten_append, hactions, hactions', List.flatMap_cons]
    · rw [run_append]
      exact hwaiting'
    · rw [run_append, hconns', hconns, List.append_assoc, ← unanswered_cons]

/-- Clients that come one after another are each answered with what their own request asks for,
on their own connection, which is closed. Only those that ask for an empty path keep theirs. -/
theorem clients_in_turn_are_answered (clients : List Client) (hwhole : ∀ c ∈ clients, c.Whole)
    (hdistinct : clients.Pairwise fun c c' => c.url = [] → c.sock ≠ c'.sock)
    (hroom : (clients.filter fun c => c.url = []).length < 126) :
    let s := run step init (visits 0 clients)
    Along step Kernel init (visits 0 clients) ∧
      (trace step (fun s input => (perform s input).2) init (visits 0 clients)).flatten =
        clients.flatMap Client.actions ∧
      s.conns = unanswered 0 clients ∧ s.evCount = 1 + (unanswered 0 clients).length ∧
      s.reading = false ∧ s.pending = [] := by
  have hempty : ∀ c ∈ clients, ∀ c' ∈ init.conns, c'.sock ≠ c.sock := fun _ _ _ hc' => by cases hc'
  obtain ⟨hkernel, hactions, hwaiting, hconns⟩ := visits_spec waiting_init hwhole hempty hdistinct
    (by simpa [init] using hroom)
  have hconns' : (run step init (visits 0 clients)).conns = unanswered 0 clients := hconns
  have hcount := hwaiting.count
  rw [hconns] at hcount
  exact ⟨hkernel, hactions, hconns', hcount, hwaiting.reading, hwaiting.pending⟩

def twoVisitors : List Client :=
  [⟨5, ascii "GET / HTTP\r\n\r\n", ⟨false, none⟩⟩, ⟨6, ascii "GET /a HTTP\r\n\r\n", ⟨false, none⟩⟩]

theorem clients_in_turn_are_answered_of_two :
    let s := run step init (visits 0 twoVisitors)
    Along step Kernel init (visits 0 twoVisitors) ∧
      (trace step (fun s input => (perform s input).2) init (visits 0 twoVisitors)).flatten =
        twoVisitors.flatMap Client.actions ∧
      s.conns = unanswered 0 twoVisitors ∧ s.evCount = 1 + (unanswered 0 twoVisitors).length ∧
      s.reading = false ∧ s.pending = [] :=
  clients_in_turn_are_answered twoVisitors
    (List.forall_mem_cons.mpr ⟨⟨by decide, by decide, by decide⟩,
      List.forall_mem_singleton.mpr ⟨by decide, by decide, by decide⟩⟩)
    (by decide) (by decide)

end Homework.WebServer
