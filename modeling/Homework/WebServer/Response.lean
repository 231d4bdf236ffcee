import Homework.WebServer.Request

/-!
# Writing a response

`write_res` of `hw12-webserver/main.c`, with what it asks of the system as it asks it.
-/

namespace Homework.WebServer

set_option autoImplicit false

def forbiddenResponse (contentLength : Nat) (url : List UInt8) : List UInt8 :=
  ascii "HTTP/1.1 403 Forbidden\r\nContent-Length: " ++ ascii (toString contentLength) ++
    ascii "\r\nConnection: close\r\nContent-Type: text/html\r\n\r\n" ++
    ascii "<html><head><title>403 Forbidden</title></head><body><h1>Forbidden</h1>" ++
    ascii "<p>You don't have permission to access /" ++ url ++
    ascii " on this server!</p></body></html>\n"

def notFoundResponse : List UInt8 :=
  ascii "HTTP/1.1 404 Not Found\r\nContent-Length: 133\r\n" ++
    ascii "Connection: close\r\nContent-Type: text/html\r\n\r\n" ++
    ascii "<html><head><title>404 Not Found</title></head><body><h1>Not Found</h1>" ++
    ascii "The requested URL was not found on this server.</body></html>\n"

def okResponse (contentLength : Nat) : List UInt8 :=
  ascii "HTTP/1.1 200 OK\r\nServer: chttp\r\nContent-Length: " ++ ascii (toString contentLength) ++
    ascii "\r\nConnection: close\r\nContent-Type: text/html\r\n\r\n"

inductive Action where
  | recv (sock : Int)
  | access (url : List UInt8)
  | openFile (url : List UInt8)
  | send (sock : Int) (bytes : List UInt8)
  | sendfile (sock : Int) (size : Nat)
  | ctlDel (sock : Int)
  | close (sock : Int)
  deriving DecidableEq

/-- What the file system answers: whether `access` fails with `EACCES`, and the size of the
file if `open` opens it. -/
structure Files where
  eacces : Bool
  opened : Option Nat

def respond (req : ReqData) (text : List UInt8) : ReqData × List Action :=
  ({ req with resBuf := copyInto req.resBuf 0 (text ++ [0]), resSize := text.length },
    [.send req.sock text])

def writeRes (req : ReqData) (files : Files) : ReqData × List Action :=
  if req.urlLen ≠ 0 then
    if files.eacces then
      let (req', sent) := respond req (forbiddenResponse (146 + req.urlLen) req.url)
      (req', .access req.url :: sent)
    else
      match files.opened with
      | none =>
        let (req', sent) := respond req notFoundResponse
        (req', .access req.url :: .openFile req.url :: sent)
      | some size =>
        let (req', sent) := respond req (okResponse size)
        (req', .access req.url :: .openFile req.url :: (sent ++ [.sendfile req.sock size]))
  else (req, [])

def Action.Concerns (sock : Int) (url : List UInt8) : Action → Prop
  | .recv sock' => sock' = sock
  | .access url' => url' = url
  | .openFile url' => url' = url
  | .send sock' _ => sock' = sock
  | .sendfile sock' _ => sock' = sock
  | .ctlDel sock' => sock' = sock
  | .close sock' => sock' = sock

theorem writeRes_concerns (req : ReqData) (files : Files) :
    ∀ a ∈ (writeRes req files).2, a.Concerns req.sock req.url := by
  unfold writeRes respond
  split
  · split
    · simp [Action.Concerns]
    · split <;> simp [Action.Concerns]
  · simp

theorem writeRes_with (req : ReqData) (files : Files) :
    ∃ resBuf resSize, (writeRes req files).1 = { req with resBuf, resSize } := by
  unfold writeRes respond
  split
  · split
    · exact ⟨_, _, rfl⟩
    · split <;> exact ⟨_, _, rfl⟩
  · exact ⟨req.resBuf, req.resSize, rfl⟩

end Homework.WebServer
