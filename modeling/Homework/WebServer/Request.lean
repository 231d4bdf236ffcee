import Mathlib.Data.List.Infix
import Homework.Shared.CString

/-!
# Reading a request

`hw12-webserver/main.c`: `read_req` receives into the buffer of the request until it holds
the end of a header, and `parse_url` cuts the second word out of it. A C string in an array
is the array up to its first NUL. In a full array it would go on into the fields behind;
here it ends with the array.
-/

namespace Homework.WebServer

set_option autoImplicit false

def bufSz : Nat := 2048
def strLen : Nat := 256

/-- `req_data_t`. The array `url` is kept as the string in it. -/
structure ReqData where
  sock : Int
  reqBuf : List UInt8
  reqSize : Nat
  resBuf : List UInt8
  resSize : Nat
  url : List UInt8
  urlLen : Nat
  deriving DecidableEq

def zeroReq : ReqData where
  sock := 0
  reqBuf := List.replicate bufSz 0
  reqSize := 0
  resBuf := List.replicate bufSz 0
  resSize := 0
  url := []
  urlLen := 0

def space : UInt8 := 32

/-- `strtok` with a space as the only separator, from position `pos` of the string: the
token, the string with the separator behind it overwritten, and where to go on. -/
def strtok (s : List UInt8) (pos : Nat) : Option (List UInt8 × List UInt8 × Nat) :=
  let first := pos + ((s.drop pos).takeWhile fun b => b == space).length
  let token := (s.drop first).takeWhile fun b => b != space && b != 0
  let stop := first + token.length
  if token = [] then none
  else if s[stop]? = some space then some (token, s.set stop 0, stop + 1)
  else some (token, s, stop)

def parseUrl (line : List UInt8) : List UInt8 × List UInt8 :=
  match strtok line 0 with
  | none => (line, [])
  | some (_, line, pos) =>
    match strtok line pos with
    | none => (line, [])
    | some (token, line, _) => (line, token.tail.take (strLen - 1))

/-- What a call of `recv` returns. No bytes means that the peer has closed. -/
inductive Recv where
  | data (bytes : List UInt8)
  | error

def headerEnd : List UInt8 := [13, 10, 13, 10]

inductive ReadLoop where
  | waiting
  | failed (reqBuf : List UInt8)
  | header (reqBuf : List UInt8) (res : Nat)

/-- The loop of `read_req`, which waits while its next `recv` has not returned. -/
def readLoop (reqBuf : List UInt8) : List Recv → ReadLoop
  | [] => .waiting
  | .error :: _ => .failed reqBuf
  | .data bytes :: recvs =>
    -- every `recv` writes from the start of the buffer
    let reqBuf := copyInto reqBuf 0 bytes
    if headerEnd <:+: cString reqBuf then .header reqBuf bytes.length else readLoop reqBuf recvs

/-- `read_req`, given what its calls of `recv` return, or `none` if it has not come to its
end with these. A terminator at `bufSz` falls behind the array. -/
def readReq (req : ReqData) (recvs : List Recv) : Option ReqData :=
  match readLoop req.reqBuf recvs with
  | .waiting => none
  | .failed reqBuf => some { req with reqBuf }
  | .header reqBuf res =>
    let (reqBuf, url) := parseUrl (reqBuf.set res 0)
    some { req with reqBuf, reqSize := res, url, urlLen := url.length }

theorem readReq_with (req : ReqData) (recvs : List Recv) (sock : Int) (resBuf : List UInt8)
    (resSize : Nat) : readReq { req with sock, resBuf, resSize } recvs =
      (readReq req recvs).map fun req => { req with sock, resBuf, resSize } := by
  unfold readReq
  dsimp only
  cases readLoop req.reqBuf recvs <;> rfl

theorem readReq_sock {req req' : ReqData} {recvs : List Recv} (h : readReq req recvs = some req') :
    req'.sock = req.sock := by
  unfold readReq at h
  split at h <;> cases h <;> rfl

end Homework.WebServer
