import Mathlib.Algebra.Ring.Nat
import Homework.WebServer.CrossTalk

/-!
# Counting the connections

`ev_count` follows the registered descriptors, and no connection is accepted when it is
`EPOLL_MAX - 1`. An answered connection is closed under the descriptor that `req` has then. A
connection whose descriptor `req` has lost to a later one is never read, answered or closed.
-/

namespace Homework.WebServer

set_option autoImplicit false

def Registered (s : State) (sock : Int) : Prop := ∃ c ∈ s.conns, c.sock = sock

instance (s : State) (sock : Int) : Decidable (Registered s sock) :=
  inferInstanceAs (Decidable (∃ c ∈ s.conns, c.sock = sock))

def Action.sock? : Action → Option Int
  | .recv sock => some sock
  | .access _ => none
  | .openFile _ => none
  | .send sock _ => some sock
  | .sendfile sock _ => some sock
  | .ctlDel sock => some sock
  | .close sock => some sock

/-- The descriptor is taken out of the event queue without being in it. -/
def Action.DelsStray (s : State) : Action → Prop
  | .ctlDel sock => ¬ Registered s sock
  | _ => False

instance (s : State) : DecidablePred (Action.DelsStray s)
  | .ctlDel sock => inferInstanceAs (Decidable (¬ Registered s sock))
  | .recv _ => .isFalse id
  | .access _ => .isFalse id
  | .openFile _ => .isFalse id
  | .send _ _ => .isFalse id
  | .sendfile _ _ => .isFalse id
  | .close _ => .isFalse id

def strayDels (s : State) (input : Input) : Nat :=
  (perform s input).2.countP fun a => a.DelsStray s

/-- A connection is accepted, and `epoll_ctl` does not take it. -/
def failedAdds (s : State) (input : Input) : Nat :=
  match s.reading, input, s.pending with
  | false, .handle answers, ev :: _ =>
    if ev.source = .server ∧ answers.accept.isSome ∧ s.evCount ≠ epollMax - 1 ∧
      answers.ctl = false then 1 else 0
  | _, _, _ => 0

/-! ## What a step can do -/

theorem perform_cases (s : State) (input : Input) :
    (∃ pending, perform s input = ({ s with pending }, [])) ∨
    (∃ answers ev pending, input = .handle answers ∧ s.reading = false ∧
      s.pending = ev :: pending ∧ ev.source = .server ∧
      perform s input = acceptConn { s with pending } answers) ∨
    (∃ answers ev pending c, input = .handle answers ∧ s.reading = false ∧
      s.pending = ev :: pending ∧ ev.source = .conn c ∧
      perform s input = handleConn { s with pending } ev answers) := by
  by_cases hreading : s.reading = true
  · exact Or.inl ⟨s.pending, if_pos hreading⟩
  · rw [Bool.not_eq_true] at hreading
    cases input with
    | wait events =>
      rcases hp : s.pending with _ | ⟨ev, pending⟩
      · exact Or.inl ⟨events, by simp [perform, hreading, hp]⟩
      · have hidle : perform s (.wait events) = (s, []) := by simp [perform, hreading, hp]
        exact Or.inl ⟨s.pending, hidle⟩
    | handle answers =>
      rcases hp : s.pending with _ | ⟨ev, pending⟩
      · have hidle : perform s (.handle answers) = (s, []) := by simp [perform, hreading, hp]
        exact Or.inl ⟨s.pending, hidle⟩
      · cases hev : ev.source with
        | server =>
          exact Or.inr (Or.inl ⟨answers, ev, pending, rfl, hreading, rfl, hev,
            perform_server hreading hp hev answers⟩)
        | conn c =>
          exact Or.inr (Or.inr ⟨answers, ev, pending, c, rfl, hreading, rfl, hev,
            perform_conn hreading hp hev answers⟩)

theorem acceptConn_cases (s : State) (answers : Answers) :
    (answers.accept = none ∧ acceptConn s answers = (s, [])) ∨
    ∃ conn, answers.accept = some conn ∧
      ((s.evCount = epollMax - 1 ∧ acceptConn s answers = (s, [.close conn])) ∨
      (s.evCount ≠ epollMax - 1 ∧ answers.ctl = true ∧ acceptConn s answers =
        ({ s with
            req := { s.req with sock := conn }
            conns := s.conns ++ [⟨s.nextId, conn⟩]
            nextId := s.nextId + 1
            evCount := s.evCount + 1 }, [])) ∨
      (s.evCount ≠ epollMax - 1 ∧ answers.ctl = false ∧ acceptConn s answers =
        ({ s with req := { s.req with sock := conn } }, [.close conn]))) := by
  unfold acceptConn
  cases answers.accept with
  | none => exact Or.inl ⟨rfl, rfl⟩
  | some conn =>
    refine Or.inr ⟨conn, rfl, ?_⟩
    by_cases hcount : s.evCount = epollMax - 1
    · exact Or.inl ⟨hcount, if_pos hcount⟩
    · dsimp only
      rw [if_neg hcount]
      cases hctl : answers.ctl with
      | true => exact Or.inr (Or.inl ⟨hcount, rfl, rfl⟩)
      | false => exact Or.inr (Or.inr ⟨hcount, rfl, rfl⟩)

/-- The branch of the server's event closes what it has accepted, or nothing. -/
theorem acceptConn_actions {s : State} {answers : Answers} :
    ∀ a ∈ (acceptConn s answers).2, ∃ conn, answers.accept = some conn ∧ a = .close conn := by
  rcases acceptConn_cases s answers with ⟨-, haccept⟩ | ⟨conn, hconn, hcases⟩
  · rw [haccept]
    exact fun a ha => by cases ha
  · rcases hcases with ⟨-, haccept⟩ | ⟨-, -, haccept⟩ | ⟨-, -, haccept⟩
    all_goals
      rw [haccept]
      intro a ha
    · exact ⟨conn, hconn, List.mem_singleton.mp ha⟩
    · cases ha
    · exact ⟨conn, hconn, List.mem_singleton.mp ha⟩

theorem readLoop_of_errors {reqBuf : List UInt8} {recvs : List Recv}
    (h : ∀ recv ∈ recvs, recv = .error) :
    readLoop reqBuf recvs = .waiting ∨ readLoop reqBuf recvs = .failed reqBuf := by
  cases recvs with
  | nil => exact Or.inl rfl
  | cons recv recvs =>
    rw [h recv List.mem_cons_self]
    exact Or.inr rfl

theorem readReq_resSize {req req' : ReqData} {recvs : List Recv}
    (h : readReq req recvs = some req') : req'.resSize = req.resSize := by
  unfold readReq at h
  split at h <;> cases h <;> rfl

/-- Without a connection behind the descriptor nothing is read. -/
theorem readReq_of_errors {req req' : ReqData} {recvs : List Recv}
    (herrors : ∀ recv ∈ recvs, recv = .error) (h : readReq req recvs = some req') : req' = req := by
  unfold readReq at h
  rcases @readLoop_of_errors req.reqBuf recvs herrors with hloop | hloop
  · rw [hloop] at h
    cases h
  · rw [hloop] at h
    cases h
    rfl

/-- With a descriptor that is not registered, `req` is only answered if it was read before. -/
def Answerable (s : State) : Prop := s.req.urlLen ≠ 0 ∨ Registered s s.req.sock

theorem readEvent_cases {s s' : State} {ev : EpollEvent} {recvs : List Recv}
    (hstray : ¬ Registered s s.req.sock → ∀ recv ∈ recvs, recv = .error)
    (h : readEvent s ev recvs = some s') :
    ∃ req heard, s' = { s with req, heard } ∧ req.sock = s.req.sock ∧
      req.resSize = s.req.resSize ∧ (req.urlLen ≠ 0 → Answerable s) := by
  unfold readEvent at h
  split at h
  · obtain ⟨req, hread, rfl⟩ := Option.map_eq_some_iff.mp h
    refine ⟨req, _, rfl, readReq_sock hread, readReq_resSize hread, fun hurl => ?_⟩
    by_cases hregistered : Registered s s.req.sock
    · exact Or.inr hregistered
    · rw [readReq_of_errors (hstray hregistered) hread] at hurl
      exact Or.inl hurl
  · cases h
    exact ⟨s.req, s.heard, rfl, rfl, rfl, Or.inl⟩

theorem writeRes_cases (req : ReqData) (files : Files) :
    ∃ resBuf resSize written, writeRes req files = ({ req with resBuf, resSize }, written) ∧
      (resSize = req.resSize ∨ req.urlLen ≠ 0) ∧
      ∀ a ∈ written, (∀ s, ¬ a.DelsStray s) ∧ ∀ sock, a.sock? = some sock → sock = req.sock := by
  unfold writeRes
  split
  · rename_i hurl
    split
    · exact ⟨_, _, _, rfl, Or.inr hurl, by simp [Action.sock?, Action.DelsStray]⟩
    · split
      · exact ⟨_, _, _, rfl, Or.inr hurl, by simp [Action.sock?, Action.DelsStray]⟩
      · exact ⟨_, _, _, rfl, Or.inr hurl, by simp [Action.sock?, Action.DelsStray]⟩
  · exact ⟨req.resBuf, req.resSize, [], rfl, Or.inl rfl, by simp⟩

theorem writeEvent_cases (s : State) (ev : EpollEvent) (files : Files) :
    ∃ resBuf resSize written,
      writeEvent s ev files = ({ s with req := { s.req with resBuf, resSize } }, written) ∧
      (resSize = s.req.resSize ∨ s.req.urlLen ≠ 0) ∧
      ∀ a ∈ written, (∀ s, ¬ a.DelsStray s) ∧ ∀ sock, a.sock? = some sock → sock = s.req.sock := by
  unfold writeEvent
  split
  · obtain ⟨resBuf, resSize, written, hwrite, hcases⟩ := writeRes_cases s.req files
    rw [hwrite]
    exact ⟨resBuf, resSize, written, rfl, hcases⟩
  · exact ⟨s.req.resBuf, s.req.resSize, [], rfl, Or.inl rfl, by simp⟩

/-- Nothing the branch does concerns another descriptor than that of `req`. -/
theorem handleConn_cases {s : State} {answers : Answers} (ev : EpollEvent)
    (hblank : s.req.resSize = 0)
    (hstray : ¬ Registered s s.req.sock → ∀ recv ∈ answers.recvs, recv = .error) :
    (∀ a ∈ (handleConn s ev answers).2, ∀ sock, a.sock? = some sock → sock = s.req.sock) ∧
      ((∃ req heard reading, (handleConn s ev answers).1 = { s with req, heard, reading } ∧
          req.sock = s.req.sock ∧ req.resSize = 0 ∧ (req.urlLen ≠ 0 → Answerable s) ∧
          ∀ a ∈ (handleConn s ev answers).2, ∀ s, ¬ a.DelsStray s) ∨
        ∃ heard before, (∀ a ∈ before, ∀ s, ¬ a.DelsStray s) ∧ Answerable s ∧
          handleConn s ev answers =
            ({ s with
                req := zeroReq
                conns := s.conns.filter fun c => c.sock ≠ s.req.sock
                evCount := s.evCount - 1
                heard },
              before ++ [.ctlDel s.req.sock, .close s.req.sock])) := by
  have hreceived : ∀ a ∈ (if ev.epollin then [Action.recv s.req.sock] else []),
      (∀ s, ¬ a.DelsStray s) ∧ ∀ sock, a.sock? = some sock → sock = s.req.sock := by
    intro a ha
    split at ha
    · rw [List.mem_singleton.mp ha]
      exact ⟨fun _ => id, fun sock hsock => (Option.some.inj hsock).symm⟩
    · cases ha
  unfold handleConn
  generalize (if ev.epollin then [Action.recv s.req.sock] else []) = received at hreceived ⊢
  cases hread : readEvent s ev answers.recvs with
  | none =>
    refine ⟨fun a ha => (hreceived a ha).2, Or.inl ⟨s.req, _, true, rfl, rfl, hblank, Or.inl, ?_⟩⟩
    exact fun a ha => (hreceived a ha).1
  | some s₁ =>
    obtain ⟨req, heard, rfl, hsock, hsize, hurl⟩ := readEvent_cases hstray hread
    obtain ⟨resBuf, resSize, written, hwrite, hres, hwritten⟩ :=
      writeEvent_cases { s with req, heard } ev answers.files
    have hbefore : ∀ a ∈ received ++ written,
        (∀ s, ¬ a.DelsStray s) ∧ ∀ sock, a.sock? = some sock → sock = s.req.sock := by
      intro a ha
      rcases List.mem_append.mp ha with ha | ha
      · exact hreceived a ha
      · exact ⟨(hwritten a ha).1, fun sock h => ((hwritten a ha).2 sock h).trans hsock⟩
    dsimp only at hres ⊢
    rw [hwrite]
    dsimp only
    unfold closeAnswered
    dsimp only
    split
    · rename_i hanswered
      have hanswer : Answerable s := by
        apply hurl
        rcases hres with hres | hres
        · exact absurd (hres.trans (hsize.trans hblank)) hanswered
        · exact hres
      refine ⟨?_, Or.inr ⟨heard, _, fun a ha => (hbefore a ha).1, hanswer, by rw [hsock]⟩⟩
      intro a ha
      rcases List.mem_append.mp ha with ha | ha
      · exact (hbefore a ha).2
      · simp only [List.mem_cons, List.not_mem_nil, or_false] at ha
        rcases ha with rfl | rfl
        · exact fun sock h => (Option.some.inj h).symm.trans hsock
        · exact fun sock h => (Option.some.inj h).symm.trans hsock
    · rename_i hunanswered
      rw [List.append_nil]
      exact ⟨fun a ha => (hbefore a ha).2, Or.inl ⟨_, heard, s.reading, rfl, hsock,
        not_not.mp hunanswered, hurl, fun a ha => (hbefore a ha).1⟩⟩

/-! ## The account -/

/-- `req` holds a request, but its descriptor is not registered. -/
def Stray (s : State) : Prop := s.req.urlLen ≠ 0 ∧ ¬ Registered s s.req.sock

/-- The account after `adds` connections that `epoll_ctl` has not taken, and after `dels` of
these have been deregistered all the same. -/
structure Counted (dels adds : Nat) (s : State) : Prop where
  unanswered : s.req.resSize = 0
  distinct : (s.conns.map Conn.sock).Nodup
  count : s.evCount + dels = 1 + s.conns.length
  le : dels ≤ adds
  owed : Stray s → dels < adds
  full : s.evCount ≤ epollMax - 1
  idle : ¬ Registered s s.req.sock → s.evCount ≤ epollMax - 2

theorem counted_init : Counted 0 0 init where
  unanswered := rfl
  distinct := List.nodup_nil
  count := rfl
  le := Nat.le_refl 0
  owed h := absurd rfl h.1
  full := by decide
  idle _ := by decide

/-- Among distinct descriptors one that is registered is taken out once, any other never. -/
theorem length_filter_sock {conns : List Conn} (h : (conns.map Conn.sock).Nodup) (sock : Int) :
    (conns.filter fun c => c.sock ≠ sock).length + (if ∃ c ∈ conns, c.sock = sock then 1 else 0) =
      conns.length := by
  induction conns with
  | nil => rfl
  | cons c conns ih =>
    rw [List.map_cons, List.nodup_cons] at h
    have hrest := ih h.2
    by_cases hc : c.sock = sock
    · have hnone : ¬ ∃ c' ∈ conns, c'.sock = sock := by
        rintro ⟨c', hc', hsock⟩
        apply h.1
        rw [hc, ← hsock]
        exact List.mem_map_of_mem hc'
      rw [if_neg hnone] at hrest
      rw [if_pos ⟨c, List.mem_cons_self, hc⟩, List.filter_cons_of_neg (by simpa using hc),
        List.length_cons]
      omega
    · have hiff : (∃ c' ∈ c :: conns, c'.sock = sock) ↔ ∃ c' ∈ conns, c'.sock = sock := by
        simp [hc]
      rw [List.filter_cons_of_pos (by simpa using hc), List.length_cons, List.length_cons]
      simp only [hiff]
      omega

theorem countP_closed (s : State) (sock : Int) :
    ([Action.ctlDel sock, .close sock].countP fun a => a.DelsStray s) =
      if Registered s sock then 0 else 1 := by
  have hclose : ¬ (Action.close sock).DelsStray s := id
  have hdel : (Action.ctlDel sock).DelsStray s ↔ ¬ Registered s sock := Iff.rfl
  simp only [List.countP_cons, List.countP_nil, hclose, hdel, decide_not, Bool.not_eq_true',
    decide_eq_false_iff_not, ite_not, Nat.zero_add, decide_false, Bool.false_eq_true, if_false]

namespace Counted
variable {s : State} {dels adds : Nat}

theorem accept (h : Counted dels adds s) {answers : Answers}
    (hfresh : ∀ conn, answers.accept = some conn → ∀ c ∈ s.conns, c.sock ≠ conn) :
    Counted dels (adds + if answers.accept.isSome ∧ s.evCount ≠ epollMax - 1 ∧
      answers.ctl = false then 1 else 0) (acceptConn s answers).1 := by
  rcases acceptConn_cases s answers with ⟨hnone, haccept⟩ | ⟨conn, hconn, hcases⟩
  · rw [haccept, hnone]
    exact h
  · have hunused : ∀ sock ∈ s.conns.map Conn.sock, sock ≠ conn := by
      intro sock hsock
      obtain ⟨c, hc, rfl⟩ := List.mem_map.mp hsock
      exact hfresh conn hconn c hc
    have hfull := h.full
    rcases hcases with ⟨hcount, haccept⟩ | ⟨hcount, hctl, haccept⟩ | ⟨hcount, hctl, haccept⟩
    · rw [haccept, if_neg fun hfails => hfails.2.1 hcount]
      exact h
    · rw [haccept, if_neg fun hfails => by rw [hctl] at hfails; cases hfails.2.2]
      have hregistered : ∃ c ∈ s.conns ++ [⟨s.nextId, conn⟩], c.sock = conn :=
        ⟨⟨s.nextId, conn⟩, by simp, rfl⟩
      refine ⟨h.unanswered, ?_, ?_, h.le, ?_, ?_, ?_⟩
      · rw [List.map_append, List.nodup_append]
        refine ⟨h.distinct, List.pairwise_singleton .., ?_⟩
        intro sock hsock sock' hsock'
        rw [List.mem_singleton.mp hsock']
        exact hunused sock hsock
      · have hlength := h.count
        dsimp only
        rw [List.length_append, List.length_singleton]
        omega
      · exact fun hstray => absurd hregistered hstray.2
      · dsimp only
        omega
      · exact fun hno => absurd hregistered hno
    · rw [haccept, if_pos ⟨by rw [hconn]; rfl, hcount, hctl⟩]
      refine ⟨h.unanswered, h.distinct, h.count, Nat.le_succ_of_le h.le, ?_, hfull, ?_⟩
      · exact fun _ => Nat.lt_succ_of_le h.le
      · intro _
        dsimp only
        omega

theorem handle (h : Counted dels adds s) {answers : Answers} (ev : EpollEvent)
    (hstray : ¬ Registered s s.req.sock → ∀ recv ∈ answers.recvs, recv = .error) :
    Counted (dels + (handleConn s ev answers).2.countP fun a => a.DelsStray s) adds
      (handleConn s ev answers).1 := by
  obtain ⟨-, ⟨req, heard, reading, hhandle, hsock, hsize, hurl, hquiet⟩ |
    ⟨heard, before, hquiet, hanswer, hhandle⟩⟩ := handleConn_cases ev h.unanswered hstray
  · have hnone : ((handleConn s ev answers).2.countP fun a => a.DelsStray s) = 0 := by
      rw [List.countP_eq_zero]
      intro a ha
      simpa using hquiet a ha s
    rw [hnone, hhandle]
    refine ⟨hsize, h.distinct, h.count, h.le, ?_, h.full, ?_⟩
    · rintro ⟨hne, hno⟩
      dsimp only at hne hno
      rw [hsock] at hno
      exact h.owed ⟨(hurl hne).resolve_right hno, hno⟩
    · intro hno
      dsimp only at hno
      rw [hsock] at hno
      exact h.idle hno
  · have hnone : (before.countP fun a => a.DelsStray s) = 0 := by
      rw [List.countP_eq_zero]
      intro a ha
      simpa using hquiet a ha s
    have hlength : (s.conns.filter fun c => c.sock ≠ s.req.sock).length +
        (if Registered s s.req.sock then 1 else 0) = s.conns.length :=
      length_filter_sock h.distinct s.req.sock
    have hdistinct := h.distinct.sublist
      ((List.filter_sublist (p := fun c => c.sock ≠ s.req.sock)).map Conn.sock)
    have hfull := h.full
    have hcount := h.count
    have hle := h.le
    rw [hhandle]
    dsimp only
    rw [List.countP_append, hnone, Nat.zero_add, countP_closed]
    by_cases hregistered : Registered s s.req.sock
    · rw [if_pos hregistered] at hlength ⊢
      refine ⟨rfl, hdistinct, ?_, hle, fun hstray => absurd rfl hstray.1, ?_, fun _ => ?_⟩
      all_goals
        dsimp only
        omega
    · have howed := h.owed ⟨hanswer.resolve_right hregistered, hregistered⟩
      rw [if_neg hregistered] at hlength ⊢
      refine ⟨rfl, hdistinct, ?_, howed, fun hstray => absurd rfl hstray.1, ?_, fun _ => ?_⟩
      all_goals
        dsimp only
        omega

theorem mono (h : Counted dels adds s) {adds' : Nat} (hle : adds ≤ adds') :
    Counted dels adds' s :=
  { h with
    le := Nat.le_trans h.le hle
    owed := fun hstray => Nat.lt_of_lt_of_le (h.owed hstray) hle }

theorem pending (h : Counted dels adds s) (pending : List EpollEvent) :
    Counted dels adds { s with pending } :=
  ⟨h.unanswered, h.distinct, h.count, h.le, h.owed, h.full, h.idle⟩

theorem step (h : Counted dels adds s) {input : Input} (hkernel : Kernel s input) :
    Counted (dels + strayDels s input) (adds + failedAdds s input) (step s input) := by
  unfold strayDels WebServer.step
  rcases perform_cases s input with ⟨pending, hperform⟩ |
    ⟨answers, ev, pending, rfl, hreading, hp, hev, hperform⟩ |
    ⟨answers, ev, pending, c, rfl, hreading, hp, hev, hperform⟩
  · rw [hperform]
    exact (h.pending pending).mono (Nat.le_add_right _ _)
  · have hadds : failedAdds s (.handle answers) = if answers.accept.isSome ∧
        s.evCount ≠ epollMax - 1 ∧ answers.ctl = false then 1 else 0 := by
      simp [failedAdds, hreading, hp, hev]
    have hnone : ((acceptConn { s with pending } answers).2.countP fun a => a.DelsStray s) = 0 := by
      rw [List.countP_eq_zero]
      intro a ha
      obtain ⟨conn, -, rfl⟩ := acceptConn_actions a ha
      exact Bool.false_ne_true
    rw [hperform, hadds, hnone]
    exact (h.pending pending).accept hkernel.1
  · rw [hperform]
    refine ((h.pending pending).handle ev fun hno => hkernel.2.2 ?_).mono (Nat.le_add_right _ _)
    exact fun c hc hsock => hno ⟨c, hc, hsock⟩

theorem run (h : Counted dels adds s) {inputs : List Input}
    (hkernel : Along WebServer.step Kernel s inputs) :
    Counted (dels + (trace WebServer.step strayDels s inputs).sum)
      (adds + (trace WebServer.step failedAdds s inputs).sum)
      (run WebServer.step s inputs) := by
  induction inputs generalizing s dels adds with
  | nil => exact h
  | cons input inputs ih =>
    rw [trace_cons, trace_cons, List.sum_cons, List.sum_cons, ← Nat.add_assoc, ← Nat.add_assoc]
    exact ih (h.step hkernel.1) hkernel.2

end Counted

/-- In every run `ev_count` is one more than the number of registered connections, but for the
descriptors that were deregistered without being registered, one at most for every failure of
`epoll_ctl`. A connection is turned away only while `req` belongs to a registered one. -/
theorem connections_are_counted (inputs : List Input) (hkernel : Along step Kernel init inputs) :
    let s := run step init inputs
    let dels := (trace step strayDels init inputs).sum
    (s.conns.map Conn.sock).Nodup ∧ s.evCount + dels = 1 + s.conns.length ∧
      dels ≤ (trace step failedAdds init inputs).sum ∧ s.evCount ≤ epollMax - 1 ∧
      (s.evCount = epollMax - 1 → Registered s s.req.sock) := by
  have h := counted_init.run hkernel
  rw [Nat.zero_add, Nat.zero_add] at h
  refine ⟨h.distinct, h.count, h.le, h.full, fun hfull => ?_⟩
  by_contra hno
  have hidle := h.idle hno
  rw [hfull] at hidle
  exact absurd hidle (by decide)

theorem kernel_twoClients : Along step Kernel init twoClients :=
  ⟨kernel_wait_server _, kernel_accepted (by decide), kernel_wait_server _,
    kernel_accepted (by decide), kernel_wait_conn (by decide) _,
    kernel_received (by decide) (by decide), trivial⟩

theorem connections_are_counted_of_two_clients :
    let s := run step init twoClients
    let dels := (trace step strayDels init twoClients).sum
    (s.conns.map Conn.sock).Nodup ∧ s.evCount + dels = 1 + s.conns.length ∧
      dels ≤ (trace step failedAdds init twoClients).sum ∧ s.evCount ≤ epollMax - 1 ∧
      (s.evCount = epollMax - 1 → Registered s s.req.sock) :=
  connections_are_counted twoClients kernel_twoClients

/-! ## Connections without a request -/

/-- The connection is registered, and its descriptor is not the one in `req`. -/
structure Displaced (c : Conn) (s : State) : Prop where
  registered : c ∈ s.conns
  other : c.sock ≠ s.req.sock

namespace Displaced
variable {c : Conn} {s : State} {input : Input} {dels adds : Nat}

/-- Accepting a connection takes `req` away from all the earlier ones. -/
theorem of_accept (hcounted : Counted dels adds s) (hkernel : Kernel s input)
    (hgrows : s.conns.length < (WebServer.step s input).conns.length) (hc : c ∈ s.conns) :
    Displaced c (WebServer.step s input) := by
  unfold WebServer.step at hgrows ⊢
  rcases perform_cases s input with ⟨pending, hperform⟩ |
    ⟨answers, ev, pending, rfl, -, -, -, hperform⟩ |
    ⟨answers, ev, pending, c', rfl, -, -, -, hperform⟩
  · rw [hperform] at hgrows
    exact absurd hgrows (Nat.lt_irrefl _)
  · rw [hperform] at hgrows ⊢
    rcases acceptConn_cases { s with pending } answers with ⟨-, haccept⟩ | ⟨conn, hconn, hcases⟩
    · rw [haccept] at hgrows
      exact absurd hgrows (Nat.lt_irrefl _)
    · rcases hcases with ⟨-, haccept⟩ | ⟨-, -, haccept⟩ | ⟨-, -, haccept⟩
      · rw [haccept] at hgrows
        exact absurd hgrows (Nat.lt_irrefl _)
      · rw [haccept]
        exact ⟨List.mem_append_left _ hc, hkernel.1 conn hconn c hc⟩
      · rw [haccept] at hgrows
        exact absurd hgrows (Nat.lt_irrefl _)
  · rw [hperform] at hgrows
    have hstray : ¬ Registered s s.req.sock → ∀ recv ∈ answers.recvs, recv = .error :=
      fun hno => hkernel.2.2 fun c hc hsock => hno ⟨c, hc, hsock⟩
    obtain ⟨-, ⟨req, heard, reading, hhandle, -⟩ | ⟨heard, before, -, -, hhandle⟩⟩ :=
      handleConn_cases ev (hcounted.pending pending).unanswered hstray
    · rw [hhandle] at hgrows
      exact absurd hgrows (Nat.lt_irrefl _)
    · rw [hhandle] at hgrows
      exact absurd hgrows (Nat.not_lt.mpr (List.length_filter_le ..))

theorem step (h : Displaced c s) (hzero : c.sock ≠ 0) (hcounted : Counted dels adds s)
    (hkernel : Kernel s input) : Displaced c (WebServer.step s input) ∧
      ∀ a ∈ (perform s input).2, a.sock? ≠ some c.sock := by
  unfold WebServer.step
  rcases perform_cases s input with ⟨pending, hperform⟩ |
    ⟨answers, ev, pending, rfl, -, -, -, hperform⟩ |
    ⟨answers, ev, pending, c', rfl, -, -, -, hperform⟩
  · rw [hperform]
    exact ⟨⟨h.registered, h.other⟩, fun a ha => by cases ha⟩
  · rw [hperform]
    refine ⟨?_, fun a ha hsock => ?_⟩
    · rcases acceptConn_cases { s with pending } answers with ⟨-, haccept⟩ | ⟨conn, hconn, hcases⟩
      · rw [haccept]
        exact ⟨h.registered, h.other⟩
      · have hother := hkernel.1 conn hconn c h.registered
        rcases hcases with ⟨-, haccept⟩ | ⟨-, -, haccept⟩ | ⟨-, -, haccept⟩
        · rw [haccept]
          exact ⟨h.registered, h.other⟩
        · rw [haccept]
          exact ⟨List.mem_append_left _ h.registered, hother⟩
        · rw [haccept]
          exact ⟨h.registered, hother⟩
    · obtain ⟨conn, hconn, rfl⟩ := acceptConn_actions a ha
      exact hkernel.1 conn hconn c h.registered (Option.some.inj hsock).symm
  · rw [hperform]
    have hstray : ¬ Registered s s.req.sock → ∀ recv ∈ answers.recvs, recv = .error :=
      fun hno => hkernel.2.2 fun c hc hsock => hno ⟨c, hc, hsock⟩
    obtain ⟨hsocks, hnext⟩ := handleConn_cases ev (hcounted.pending pending).unanswered hstray
    refine ⟨?_, fun a ha hsock => h.other (hsocks a ha c.sock hsock)⟩
    rcases hnext with ⟨req, heard, reading, hhandle, hsame, -⟩ | ⟨heard, before, -, -, hhandle⟩
    · rw [hhandle]
      exact ⟨h.registered, fun hsock => h.other (hsock.trans hsame)⟩
    · rw [hhandle]
      exact ⟨List.mem_filter.mpr ⟨h.registered, by simpa using h.other⟩, hzero⟩

theorem run (h : Displaced c s) (hzero : c.sock ≠ 0) (hcounted : Counted dels adds s)
    {inputs : List Input} (hkernel : Along WebServer.step Kernel s inputs) :
    Along WebServer.step (fun s input => ∀ a ∈ (perform s input).2, a.sock? ≠ some c.sock)
        s inputs ∧ Displaced c (run WebServer.step s inputs) := by
  induction inputs generalizing s dels adds with
  | nil => exact ⟨trivial, h⟩
  | cons input inputs ih =>
    obtain ⟨hnext, hquiet⟩ := h.step hzero hcounted hkernel.1
    obtain ⟨hrest, hend⟩ := ih hnext (hcounted.step hkernel.1) hkernel.2
    exact ⟨⟨hquiet, hrest⟩, hend⟩

end Displaced

/-- When a connection is accepted while others are registered, these are registered for the rest
of every run, and nothing is read from them, sent to them or closed. -/
theorem earlier_connections_are_never_served (inputs : List Input) (input : Input)
    (more : List Input) (hkernel : Along step Kernel init (inputs ++ input :: more))
    (hgrows : (run step init inputs).conns.length <
      (step (run step init inputs) input).conns.length) :
    ∀ c ∈ (run step init inputs).conns, c.sock ≠ 0 →
      c ∈ (run step init (inputs ++ input :: more)).conns ∧
      Along step (fun s input => ∀ a ∈ (perform s input).2, a.sock? ≠ some c.sock)
        (step (run step init inputs) input) more := by
  intro c hc hzero
  obtain ⟨hpast, hnow, hmore⟩ := (along_append step Kernel init inputs (input :: more)).mp hkernel
  have hcounted := counted_init.run hpast
  have hdisplaced := Displaced.of_accept hcounted hnow hgrows hc
  obtain ⟨hquiet, hend⟩ := hdisplaced.run hzero (hcounted.step hnow) hmore
  rw [run_append, run_cons]
  exact ⟨hend.registered, hquiet⟩

/-- The first of the two clients is left alone from the accept of the second one on. -/
theorem earlier_connections_are_never_served_of_two_clients :
    ⟨0, 5⟩ ∈ (run step init twoClients).conns ∧
      Along step (fun s input => ∀ a ∈ (perform s input).2, a.sock? ≠ some 5)
        (run step init (twoClients.take 4)) (twoClients.drop 4) :=
  earlier_connections_are_never_served (twoClients.take 3) (.handle (accepted 6))
    (twoClients.drop 4) kernel_twoClients (by decide) ⟨0, 5⟩ (by decide) (by decide)

end Homework.WebServer
