import Homework.Shared.Run
import Homework.WebServer.Response

/-!
# The event loop

The loop of `main` in `hw12-webserver/main.c`. Its `req` is the data of every registered
event, whatever connection the event was registered for.

Next to the server's own variables the state has what the kernel knows: the registered
connections, and the events that the last `epoll_wait` returned and the inner loop has not
reached. An identity, given in the order of the accepts, tells connections apart that get
the same descriptor one after the other. While `read_req` waits in its loop the server is
`reading` and does nothing else.
-/

namespace Homework.WebServer

set_option autoImplicit false

def epollMax : Int := 128

structure Conn where
  id : Nat
  sock : Int
  deriving DecidableEq

inductive Source where
  | server
  | conn (c : Conn)
  deriving DecidableEq

structure EpollEvent where
  source : Source
  epollin : Bool
  epollout : Bool
  epollrdhup : Bool

structure State where
  req : ReqData
  evCount : Int
  conns : List Conn
  pending : List EpollEvent
  nextId : Nat
  /-- For every connection what was received on its socket, one entry for each `read_req`. -/
  heard : Nat → List (List Recv)
  reading : Bool

def init : State where
  req := zeroReq
  evCount := 1
  conns := []
  pending := []
  nextId := 0
  heard := fun _ => []
  reading := false

structure Answers where
  accept : Option Int
  ctl : Bool
  recvs : List Recv
  files : Files

inductive Input where
  | wait (events : List EpollEvent)
  | handle (answers : Answers)

def acceptConn (s : State) (answers : Answers) : State × List Action :=
  match answers.accept with
  | none => (s, [])
  | some conn =>
    if s.evCount = epollMax - 1 then (s, [.close conn])
    else
      let s := { s with req := { s.req with sock := conn } }
      if answers.ctl then
        ({ s with
            conns := s.conns ++ [⟨s.nextId, conn⟩]
            nextId := s.nextId + 1
            evCount := s.evCount + 1 }, [])
      else (s, [.close conn])

/-- The bytes go to the account of the connection whose socket they come from. -/
def hear (s : State) (recvs : List Recv) : Nat → List (List Recv) := fun id =>
  if ∃ c ∈ s.conns, c.id = id ∧ c.sock = s.req.sock then s.heard id ++ [recvs] else s.heard id

def closeAnswered (s : State) : State × List Action :=
  if s.req.resSize ≠ 0 then
    ({ s with
        req := zeroReq
        conns := s.conns.filter fun c => c.sock ≠ s.req.sock
        evCount := s.evCount - 1 }, [.ctlDel s.req.sock, .close s.req.sock])
  else (s, [])

def readEvent (s : State) (ev : EpollEvent) (recvs : List Recv) : Option State :=
  if ev.epollin then
    (readReq s.req recvs).map fun req => { s with req, heard := hear s recvs }
  else some s

def writeEvent (s : State) (ev : EpollEvent) (files : Files) : State × List Action :=
  if ev.epollout then
    let (req, actions) := writeRes s.req files
    ({ s with req }, actions)
  else (s, [])

/-- The branch for the event of a connection, whichever it is. -/
def handleConn (s : State) (ev : EpollEvent) (answers : Answers) : State × List Action :=
  let received := if ev.epollin then [Action.recv s.req.sock] else []
  match readEvent s ev answers.recvs with
  | none => ({ s with heard := hear s answers.recvs, reading := true }, received)
  | some s =>
    let (s, written) := writeEvent s ev answers.files
    let (s, closed) := closeAnswered s
    (s, received ++ written ++ closed)

def perform (s : State) (input : Input) : State × List Action :=
  if s.reading then (s, [])
  else
    match input, s.pending with
    | .wait events, [] => ({ s with pending := events }, [])
    | .handle answers, ev :: pending =>
      let s := { s with pending }
      match ev.source with
      | .server => acceptConn s answers
      | .conn _ => handleConn s ev answers
    | _, _ => (s, [])

def step (s : State) (input : Input) : State := (perform s input).1

/-- What the kernel promises. `epoll_wait` reports every descriptor at most once, and only
registered ones. `accept` returns a descriptor that is not in use. `recv` does not overrun
the buffer, and fails on a descriptor that is no connection. -/
def Kernel (s : State) : Input → Prop
  | .wait events => events.length ≤ 128 ∧ (events.map EpollEvent.source).Nodup ∧
      ∀ ev ∈ events, ∀ c, ev.source = .conn c → c ∈ s.conns
  | .handle answers =>
      (∀ conn, answers.accept = some conn → ∀ c ∈ s.conns, c.sock ≠ conn) ∧
      (∀ bytes, Recv.data bytes ∈ answers.recvs → bytes.length ≤ bufSz) ∧
      ((∀ c ∈ s.conns, c.sock ≠ s.req.sock) → ∀ recv ∈ answers.recvs, recv = .error)

end Homework.WebServer
