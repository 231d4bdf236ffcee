import Homework.WebServer.Server

/-!
# Cross-talk between connections

All connections share one `req`. As long as no connection is accepted while another one is
registered, `req` is at every event the request of the only connection there is: it has its
socket, and what it holds was received on it. One accept more, and the events of the first
connection are handled on the socket of the second.
-/

namespace Homework.WebServer

set_option autoImplicit false

/-- The request of a connection that has a `req` of its own, from what it has received. -/
def requestOf (calls : List (List Recv)) : ReqData :=
  calls.foldl (fun req recvs => (readReq req recvs).getD req) zeroReq

/-- An event registered for a connection is handled on the socket of that connection, and
the URL that is answered comes from what was received on it. -/
def HandlesOwn (s : State) (input : Input) : Prop :=
  ∀ answers ev pending c, input = .handle answers → s.pending = ev :: pending →
    ev.source = .conn c → ∀ a ∈ (perform s input).2,
      a.Concerns c.sock (requestOf ((step s input).heard c.id)).url

def AcceptsAlone (s : State) (input : Input) : Prop :=
  ∀ answers ev pending, input = .handle answers → s.pending = ev :: pending →
    ev.source = .server → answers.accept ≠ none → s.evCount ≠ epollMax - 1 → s.conns = []

def SameRequest (r r' : ReqData) : Prop :=
  ∃ sock resBuf resSize, r = { r' with sock, resBuf, resSize }

theorem SameRequest.url_eq {r r' : ReqData} (h : SameRequest r r') : r.url = r'.url := by
  obtain ⟨sock, resBuf, resSize, rfl⟩ := h
  rfl

theorem SameRequest.readReq {r r' req : ReqData} {recvs : List Recv} (h : SameRequest r r')
    (hread : readReq r recvs = some req) :
    ∃ req', WebServer.readReq r' recvs = some req' ∧ SameRequest req req' := by
  obtain ⟨sock, resBuf, resSize, rfl⟩ := h
  rw [readReq_with] at hread
  obtain ⟨req', hread', rfl⟩ := Option.map_eq_some_iff.mp hread
  exact ⟨req', hread', sock, resBuf, resSize, rfl⟩

/-- There is at most one connection, `req` is its request, and no event of a closed
connection is left over. -/
structure Separate (s : State) : Prop where
  one : ∀ c ∈ s.conns, s.conns = [c]
  sock : ∀ c ∈ s.conns, s.req.sock = c.sock
  request : ∀ c ∈ s.conns, SameRequest s.req (requestOf (s.heard c.id))
  blank : s.conns = [] → SameRequest s.req zeroReq
  fresh : ∀ id, s.nextId ≤ id → s.heard id = []
  known : ∀ c ∈ s.conns, c.id < s.nextId
  pending : ∀ ev ∈ s.pending, ∀ c, ev.source = .conn c → c ∈ s.conns
  once : (s.pending.map EpollEvent.source).Nodup

theorem separate_init : Separate init where
  one := by simp [init]
  sock := by simp [init]
  request := by simp [init]
  blank := fun _ => ⟨_, _, _, rfl⟩
  fresh := by simp [init]
  known := by simp [init]
  pending := by simp [init]
  once := by simp [init]

namespace Separate
variable {s : State} {ev : EpollEvent} {pending : List EpollEvent} {answers : Answers} {c : Conn}

theorem wait (h : Separate s) {events : List EpollEvent} (hk : Kernel s (.wait events)) :
    Separate { s with pending := events } :=
  { h with pending := hk.2.2, once := hk.2.1 }

theorem tail (h : Separate s) (hp : s.pending = ev :: pending) : Separate { s with pending } := by
  have hpending := h.pending
  have honce := h.once
  rw [hp] at hpending honce
  exact { h with
    pending := fun ev' hev' => hpending ev' (List.mem_cons_of_mem ev hev')
    once := (List.nodup_cons.mp honce).2 }

/-- Behind the event of the only connection there is no other event of a connection. -/
theorem tail_quiet (h : Separate s) (hp : s.pending = ev :: pending) (hev : ev.source = .conn c) :
    ∀ ev' ∈ pending, ∀ c', ev'.source ≠ .conn c' := by
  intro ev' hev' c' hc'
  have hpending := h.pending
  have honce := h.once
  rw [hp] at hpending honce
  have hc := hpending ev List.mem_cons_self c hev
  have hmem := hpending ev' (List.mem_cons_of_mem ev hev') c' hc'
  rw [h.one c hc, List.mem_singleton] at hmem
  subst c'
  apply (List.nodup_cons.mp honce).1
  rw [hev, ← hc']
  exact List.mem_map_of_mem hev'

theorem accept (h : Separate s)
    (halone : answers.accept ≠ none → s.evCount ≠ epollMax - 1 → s.conns = []) :
    Separate (acceptConn s answers).1 := by
  unfold acceptConn
  split
  · exact h
  · rename_i conn haccept
    split
    · exact h
    · rename_i hcount
      have hnone := halone (by rw [haccept]; exact Option.some_ne_none conn) hcount
      obtain ⟨sock, resBuf, resSize, hreq⟩ := h.blank hnone
      have hblank : SameRequest { s.req with sock := conn } zeroReq :=
        ⟨conn, resBuf, resSize, by rw [hreq]⟩
      have hpending : ∀ ev ∈ s.pending, ∀ c, ev.source ≠ .conn c := by
        intro ev hev c hc
        have := h.pending ev hev c hc
        rw [hnone] at this
        cases this
      dsimp only
      split
      · refine ⟨?_, ?_, ?_, ?_, ?_, ?_, ?_, h.once⟩
        · simp [hnone]
        · simp [hnone]
        · intro c hc
          rw [hnone] at hc
          obtain rfl := List.mem_singleton.mp hc
          rw [h.fresh s.nextId (Nat.le_refl _)]
          exact hblank
        · simp
        · exact fun id hid => h.fresh id (by dsimp only at hid; omega)
        · intro c hc
          rw [hnone] at hc
          obtain rfl := List.mem_singleton.mp hc
          exact Nat.lt_succ_self _
        · exact fun ev hev c hc => absurd hc (hpending ev hev c)
      · refine ⟨h.one, ?_, ?_, fun _ => hblank, h.fresh, h.known, h.pending, h.once⟩
        · simp [hnone]
        · simp [hnone]

theorem read (h : Separate s) (hc : c ∈ s.conns) {recvs : List Recv} {req : ReqData}
    (hread : readReq s.req recvs = some req) :
    Separate { s with req, heard := hear s recvs } := by
  have hone := h.one c hc
  have hsock : req.sock = s.req.sock := readReq_sock hread
  refine ⟨h.one, fun c' hc' => hsock.trans (h.sock c' hc'), ?_, ?_, ?_, h.known, h.pending, h.once⟩
  · intro c' hc'
    have hheard : hear s recvs c'.id = s.heard c'.id ++ [recvs] :=
      if_pos ⟨c', hc', rfl, (h.sock c' hc').symm⟩
    obtain ⟨req', hread', hsame⟩ := (h.request c' hc').readReq hread
    dsimp only
    rw [hheard, requestOf, List.foldl_append, ← requestOf]
    simpa [hread'] using hsame
  · intro hnone
    rw [hone] at hnone
    cases hnone
  · intro id hid
    have hno : ¬ ∃ c' ∈ s.conns, c'.id = id ∧ c'.sock = s.req.sock := by
      rintro ⟨c', hc', rfl, -⟩
      have := h.known c' hc'
      dsimp only at hid
      omega
    exact (if_neg hno).trans (h.fresh id hid)

theorem write (h : Separate s) (resBuf : List UInt8) (resSize : Nat) :
    Separate { s with req := { s.req with resBuf, resSize } } := by
  refine { h with request := fun c hc => ?_, blank := fun hnone => ?_ }
  · obtain ⟨sock, _, _, hreq⟩ := h.request c hc
    exact ⟨sock, resBuf, resSize, by rw [hreq]⟩
  · obtain ⟨sock, _, _, hreq⟩ := h.blank hnone
    exact ⟨sock, resBuf, resSize, by rw [hreq]⟩

theorem close (h : Separate s) (hc : c ∈ s.conns)
    (hquiet : ∀ ev ∈ s.pending, ∀ c, ev.source ≠ .conn c) : Separate (closeAnswered s).1 := by
  unfold closeAnswered
  split
  · have hnone : (s.conns.filter fun c => decide (c.sock ≠ s.req.sock)) = [] := by
      rw [h.one c hc, h.sock c hc]
      simp
    refine ⟨?_, ?_, ?_, fun _ => ⟨_, _, _, rfl⟩, h.fresh, ?_,
      fun ev hev c hsource => absurd hsource (hquiet ev hev c), h.once⟩
    all_goals
      dsimp only
      rw [hnone]
      simp
  · exact h

end Separate

/-! ## One event -/

theorem closeAnswered_heard (s : State) : (closeAnswered s).1.heard = s.heard := by
  unfold closeAnswered
  split <;> rfl

theorem closeAnswered_concerns (s : State) (url : List UInt8) :
    ∀ a ∈ (closeAnswered s).2, a.Concerns s.req.sock url := by
  unfold closeAnswered
  split <;> simp [Action.Concerns]

section
variable {s s' : State} {ev : EpollEvent} {c : Conn}

theorem readEvent_separate (h : Separate s) (hc : c ∈ s.conns) {recvs : List Recv}
    (hread : readEvent s ev recvs = some s') :
    Separate s' ∧ s'.conns = s.conns ∧ s'.pending = s.pending := by
  unfold readEvent at hread
  split at hread
  · obtain ⟨req, hreq, rfl⟩ := Option.map_eq_some_iff.mp hread
    exact ⟨h.read hc hreq, rfl, rfl⟩
  · cases hread
    exact ⟨h, rfl, rfl⟩

theorem writeEvent_separate (h : Separate s) (ev : EpollEvent) (files : Files) :
    ∃ resBuf resSize,
      (writeEvent s ev files).1 = { s with req := { s.req with resBuf, resSize } } ∧
      Separate (writeEvent s ev files).1 ∧
      ∀ a ∈ (writeEvent s ev files).2, a.Concerns s.req.sock s.req.url := by
  unfold writeEvent
  split
  · obtain ⟨resBuf, resSize, hwrite⟩ := writeRes_with s.req files
    refine ⟨resBuf, resSize, ?_, ?_, writeRes_concerns s.req files⟩
    · dsimp only
      rw [hwrite]
    · dsimp only
      rw [hwrite]
      exact h.write resBuf resSize
  · exact ⟨s.req.resBuf, s.req.resSize, rfl, h, by simp⟩

theorem handleConn_separate (h : Separate s) (hc : c ∈ s.conns)
    (hquiet : ∀ ev ∈ s.pending, ∀ c, ev.source ≠ .conn c) (ev : EpollEvent) (answers : Answers) :
    ((handleConn s ev answers).1.reading = true ∨ Separate (handleConn s ev answers).1) ∧
      ∀ a ∈ (handleConn s ev answers).2,
        a.Concerns c.sock (requestOf ((handleConn s ev answers).1.heard c.id)).url := by
  have hreceived : ∀ url, ∀ a ∈ (if ev.epollin then [Action.recv s.req.sock] else []),
      a.Concerns c.sock url := by
    intro url a ha
    split at ha
    · rw [List.mem_singleton.mp ha]
      exact h.sock c hc
    · cases ha
  unfold handleConn
  cases hread : readEvent s ev answers.recvs with
  | none => exact ⟨Or.inl rfl, hreceived _⟩
  | some s₁ =>
    obtain ⟨h₁, hconns, hpending⟩ := readEvent_separate h hc hread
    have hc₁ : c ∈ s₁.conns := by rwa [hconns]
    obtain ⟨resBuf, resSize, hwrite, h₂, hwritten⟩ :=
      writeEvent_separate h₁ ev answers.files
    have hsock : s₁.req.sock = c.sock := h₁.sock c hc₁
    have hurl : s₁.req.url = (requestOf (s₁.heard c.id)).url := (h₁.request c hc₁).url_eq
    have hheard : (closeAnswered (writeEvent s₁ ev answers.files).1).1.heard = s₁.heard := by
      rw [closeAnswered_heard, hwrite]
    have hclosed := closeAnswered_concerns (writeEvent s₁ ev answers.files).1
      (requestOf (s₁.heard c.id)).url
    refine ⟨Or.inr (h₂.close (c := c) (by rwa [hwrite]) ?_), fun a ha => ?_⟩
    · rw [hwrite]
      intro ev' hev'
      exact hquiet ev' (hpending ▸ hev')
    · dsimp only at ha ⊢
      rw [hheard]
      rcases List.mem_append.mp ha with ha | ha
      · rcases List.mem_append.mp ha with ha | ha
        · exact hreceived _ a ha
        · exact hurl ▸ hsock ▸ hwritten a ha
      · have := hclosed a ha
        rw [hwrite] at this
        exact hsock ▸ this

/-! ## Runs -/

theorem perform_conn (hreading : s.reading = false) {pending : List EpollEvent}
    (hp : s.pending = ev :: pending) (hev : ev.source = .conn c) (answers : Answers) :
    perform s (.handle answers) = handleConn { s with pending } ev answers := by
  simp [perform, hreading, hp, hev]

theorem perform_server (hreading : s.reading = false) {pending : List EpollEvent}
    (hp : s.pending = ev :: pending) (hev : ev.source = .server) (answers : Answers) :
    perform s (.handle answers) = acceptConn { s with pending } answers := by
  simp [perform, hreading, hp, hev]

/-- Only the first pending event is handled. -/
theorem handlesOwn_handle {pending : List EpollEvent} (hp : s.pending = ev :: pending)
    {answers : Answers}
    (h : ∀ c, ev.source = .conn c → ∀ a ∈ (perform s (.handle answers)).2,
      a.Concerns c.sock (requestOf ((step s (.handle answers)).heard c.id)).url) :
    HandlesOwn s (.handle answers) := by
  intro answers' ev' pending' c _ hpending hsource
  rw [hp] at hpending
  obtain ⟨rfl, rfl⟩ := List.cons.inj hpending
  exact h c hsource

theorem perform_separate (h : Separate s) (hreading : s.reading = false) {input : Input}
    (hkernel : Kernel s input) (halone : AcceptsAlone s input) :
    ((step s input).reading = true ∨ Separate (step s input)) ∧ HandlesOwn s input := by
  cases input with
  | wait events =>
    refine ⟨Or.inr ?_, fun answers ev pending c hinput => by cases hinput⟩
    cases hp : s.pending with
    | nil =>
      have hstep : step s (.wait events) = { s with pending := events } := by
        simp [step, perform, hreading, hp]
      rw [hstep]
      exact h.wait hkernel
    | cons ev pending =>
      have hstep : step s (.wait events) = s := by simp [step, perform, hreading, hp]
      rwa [hstep]
  | handle answers =>
    cases hp : s.pending with
    | nil =>
      have hstep : step s (.handle answers) = s := by simp [step, perform, hreading, hp]
      refine ⟨Or.inr (by rwa [hstep]), ?_⟩
      intro answers' ev pending c _ hpending
      rw [hp] at hpending
      cases hpending
    | cons ev pending =>
      have htail := h.tail hp
      cases hev : ev.source with
      | server =>
        have hperform := perform_server hreading hp hev answers
        refine ⟨Or.inr ?_, handlesOwn_handle hp fun c hsource => ?_⟩
        · rw [step, hperform]
          exact htail.accept (halone answers ev pending rfl hp hev)
        · rw [hev] at hsource
          cases hsource
      | conn c =>
        have hperform := perform_conn hreading hp hev answers
        have hc : c ∈ s.conns := h.pending ev (by rw [hp]; exact List.mem_cons_self) c hev
        obtain ⟨hnext, hactions⟩ := handleConn_separate htail hc
          (h.tail_quiet hp hev) ev answers
        refine ⟨by rwa [step, hperform], handlesOwn_handle hp fun c' hsource => ?_⟩
        obtain rfl : c = c' := Source.conn.inj (hev.symm.trans hsource)
        rw [step, hperform]
        exact hactions

end

def Exclusive (s : State) : Prop := s.reading = true ∨ Separate s

theorem step_exclusive {s : State} {input : Input} (h : Exclusive s)
    (hok : Kernel s input ∧ AcceptsAlone s input) :
    Exclusive (step s input) ∧ HandlesOwn s input := by
  by_cases hreading : s.reading = true
  · have hidle : perform s input = (s, []) := if_pos hreading
    refine ⟨Or.inl (by rw [step, hidle]; exact hreading), ?_⟩
    intro answers ev pending c _ _ _ a ha
    rw [hidle] at ha
    cases ha
  · exact perform_separate (h.resolve_left hreading) (Bool.eq_false_iff.mpr hreading) hok.1 hok.2

/-- In every run in which connections are only accepted while no other is registered, every
event is handled on the socket and with the URL of its own connection. -/
theorem no_cross_talk_when_accepted_alone (inputs : List Input)
    (hkernel : Along step Kernel init inputs) (halone : Along step AcceptsAlone init inputs) :
    Along step HandlesOwn init inputs :=
  along_of_invariant Exclusive (fun _ _ h hok => (step_exclusive h hok).1)
    (fun _ _ h hok => (step_exclusive h hok).2) (Or.inr separate_init) (hkernel.and halone)

/-! ## Two clients -/

def serverEvent : EpollEvent := ⟨.server, true, false, false⟩

def accepted (sock : Int) : Answers := ⟨some sock, true, [], ⟨false, none⟩⟩

def received (bytes : List UInt8) : Answers := ⟨none, false, [.data bytes], ⟨false, none⟩⟩

/-- One client connects on descriptor 5 and sends its request. -/
def oneClient : List Input :=
  [.wait [serverEvent], .handle (accepted 5),
    .wait [⟨.conn ⟨0, 5⟩, true, true, false⟩], .handle (received (ascii "GET /a\r\n\r\n"))]

/-- A second client connects on descriptor 6, and only then the first one's input comes. -/
def twoClients : List Input :=
  [.wait [serverEvent], .handle (accepted 5), .wait [serverEvent], .handle (accepted 6),
    .wait [⟨.conn ⟨0, 5⟩, true, false, false⟩], .handle (received (ascii "GET /a\r\n\r\n"))]

theorem kernel_wait_server (s : State) : Kernel s (.wait [serverEvent]) := by
  refine ⟨by decide, by decide, fun ev hev c hsource => ?_⟩
  rw [List.mem_singleton.mp hev] at hsource
  cases hsource

theorem kernel_wait_conn {s : State} {c : Conn} (hc : c ∈ s.conns) (epollout : Bool) :
    Kernel s (.wait [⟨.conn c, true, epollout, false⟩]) := by
  refine ⟨by simp, by simp, fun ev hev c' hsource => ?_⟩
  rw [List.mem_singleton.mp hev] at hsource
  obtain rfl := Source.conn.inj hsource
  exact hc

theorem kernel_accepted {s : State} {sock : Int} (h : ∀ c ∈ s.conns, c.sock ≠ sock) :
    Kernel s (.handle (accepted sock)) := by
  refine ⟨?_, by simp [accepted], by simp [accepted]⟩
  intro conn hconn
  obtain rfl := Option.some.inj hconn
  exact h

theorem kernel_received {s : State} {bytes : List UInt8} (hlen : bytes.length ≤ bufSz)
    (h : ∃ c ∈ s.conns, c.sock = s.req.sock) : Kernel s (.handle (received bytes)) := by
  refine ⟨by simp [received], ?_, ?_⟩
  · intro bytes' hmem
    obtain rfl := Recv.data.inj (List.mem_singleton.mp hmem)
    exact hlen
  · intro hno
    obtain ⟨c, hc, hsock⟩ := h
    exact absurd hsock (hno c hc)

theorem no_cross_talk_for_one_client : Along step HandlesOwn init oneClient := by
  apply no_cross_talk_when_accepted_alone
  · exact ⟨kernel_wait_server _, kernel_accepted (by decide), kernel_wait_conn (by decide) _,
      kernel_received (by decide) (by decide), trivial⟩
  · refine ⟨?_, ?_, ?_, ?_, trivial⟩
    · rintro _ _ _ ⟨⟩
    · rintro _ _ _ ⟨⟩ - - - -
      rfl
    · rintro _ _ _ ⟨⟩
    · rintro _ _ _ ⟨⟩ - - haccept
      exact absurd rfl haccept

theorem recv_mem_perform {s : State} {ev : EpollEvent} {pending : List EpollEvent} {c : Conn}
    (hreading : s.reading = false) (hp : s.pending = ev :: pending) (hev : ev.source = .conn c)
    (hin : ev.epollin = true) (answers : Answers) :
    .recv s.req.sock ∈ (perform s (.handle answers)).2 := by
  rw [perform_conn hreading hp hev]
  unfold handleConn
  rw [if_pos hin]
  cases readEvent { s with pending } ev answers.recvs <;> simp

theorem first_client_is_read_from_the_second :
    ¬ ∀ inputs, Along step Kernel init inputs → Along step HandlesOwn init inputs := by
  intro h
  have hkernel : Along step Kernel init twoClients :=
    ⟨kernel_wait_server _, kernel_accepted (by decide), kernel_wait_server _,
      kernel_accepted (by decide), kernel_wait_conn (by decide) _,
      kernel_received (by decide) (by decide), trivial⟩
  have hown := h twoClients hkernel
  have hlast : HandlesOwn (run step init (twoClients.take 5))
      (.handle (received (ascii "GET /a\r\n\r\n"))) :=
    ((along_append step HandlesOwn init (twoClients.take 5) (twoClients.drop 5)).mp hown).2.1
  have hrecv := hlast _ _ _ ⟨0, 5⟩ rfl rfl rfl (.recv 6)
    (recv_mem_perform rfl rfl rfl rfl _)
  exact absurd hrecv (by decide : (6 : Int) ≠ 5)

end Homework.WebServer
