import LibWebsocket.Http.Lines
import LibWebsocket.Http.ClientIp
import LibWebsocket.Websocket.Parse

/-! The opening handshake: `do_handshake` and `parse_message_frame`. The HTTP context belongs to
the websocket context and is released at the end of every call that reads a handshake. -/
namespace LibWebsocket.Websocket
open Lib Http

namespace Base64

def base64Chars : Bytes :=
  ascii "ABCDEFGHIJKLMNOPQRSTUVWXYZabcdefghijklmnopqrstuvwxyz0123456789+/"

def char (n : UInt8) : UInt8 := base64Chars.getD n.toNat 0

/-- The four characters of three bytes. -/
def group (a b c : UInt8) : Bytes :=
  [char ((a &&& 0xfc) >>> 2), char (((a &&& 0x03) <<< 4) + ((b &&& 0xf0) >>> 4)),
    char (((b &&& 0x0f) <<< 2) + ((c &&& 0xc0) >>> 6)), char (c &&& 0x3f)]

def encode : Bytes → Bytes
  | a :: b :: c :: rest => group a b c ++ encode rest
  | [a, b] => (group a b 0).take 3 ++ ascii "="
  | [a] => (group a 0 0).take 2 ++ ascii "=="
  | [] => []

end Base64

inductive HandShakeE
  | wantMore | parse | packsz | crlfcrlf
deriving DecidableEq, Repr

/-- Calls of the handshake on the owner of the connection. -/
inductive HandshakeCall
  | sendMessage (data : Bytes)
  | onConnectedCallback (ipaddr : Bytes)
  | shutdown
deriving DecidableEq, Repr

/-- The assertions around the handshake, and what the two parsers below it fail with. -/
inductive Fault
  | getHttpContext | doHandshake | parseMessageFrame
  | http (f : Http.Failure)
  | frame (f : Failure)
deriving DecidableEq, Repr

/-- `Context_` with the HTTP context it owns, the input buffer and the calls made so far. -/
structure Session extends Parser where
  httpContext : Option HttpContext
  handshakeCalls : List HandshakeCall
deriving DecidableEq

/-- A context as `create` leaves it. -/
def Session.create : Session :=
  { context := .create, buf := [], callbacks := [], httpContext := some .create
    handshakeCalls := [] }

/-- What the handshake takes from outside: OpenSSL's `SHA1`, the address of the peer and the
user's callbacks. -/
structure Environment where
  sha1 : Bytes → Bytes
  peerIpAddr : Bytes
  handler : ICallbackHandler

namespace Environment

variable (env : Environment)

def getAcceptKey (key : Bytes) : Bytes :=
  Base64.encode (env.sha1 (key ++ ascii "258EAFA5-E914-47DA-95CA-C5AB0DC85B11"))

def createWebsocketResponse (req : HttpRequest) (now : Bytes) : Bytes :=
  ascii "HTTP/1.1 101 Switching Protocols\r\n" ++ ascii "Connection: Upgrade\r\n" ++
  ascii "Content-Type: application/octet-stream\r\n" ++ ascii "Upgrade: websocket\r\n" ++
  ascii "Sec-WebSocket-Version: 13\r\n" ++ ascii "Sec-WebSocket-Accept: " ++
  env.getAcceptKey (req.getHeader (ascii "Sec-WebSocket-Key")) ++ crlf ++
  ascii "Server: TXQP\r\n" ++ ascii "Timing-Allow-Origin: *\r\n" ++
  ascii "Date: " ++ now ++ crlfcrlf

/-- No form of address is asked for. -/
def clientIpAddr (req : HttpRequest) : Bytes := clientIp (fun _ => true) env.peerIpAddr req

end Environment

def badRequest : Bytes := ascii "HTTP/1.1 400 Bad Request\r\n\r\n"

namespace Session

def getHttpContext (s : Session) : Except Fault HttpContext :=
  match s.httpContext with
  | some c => .ok c
  | none => .error .getHttpContext

def resetHttpContext (s : Session) : Except Fault Session := do
  let _ ← s.getHttpContext
  pure { s with httpContext := none }

/-- The exit that all unfinished handshakes share. -/
def handshakeFailed (e : Option HandShakeE) (s : Session) :
    Except Fault (Bool × Option HandShakeE × Session) := do
  let s ← s.resetHttpContext
  pure (false, e, s)

section
variable (env : Environment) (now : Bytes)

/-- A request is complete: answer it, unless bytes are left behind it. -/
def handshakeSucceeded (req : HttpRequest) (s : Session) :
    Except Fault (Bool × Option HandShakeE × Session) :=
  if s.buf = [] then do
    let s ← resetHttpContext { s with
      context := { s.context with state := .kConnected }
      handshakeCalls := s.handshakeCalls ++ [.sendMessage (env.createWebsocketResponse req now),
        .onConnectedCallback (env.clientIpAddr req)] }
    pure (true, none, s)
  else .error .doHandshake

def doHandshake (s : Session) : Except Fault (Bool × Option HandShakeE × Session) :=
  if s.buf.length ≤ 4 then handshakeFailed (some .wantMore) s
  else if 1024 < s.buf.length then handshakeFailed (some .packsz) s
  else
    match Http.Buffer.findCRLFCRLF s.buf with
    | none => handshakeFailed (some .crlfcrlf) s
    | some _ => do
      let http ← s.getHttpContext
      match http.parseRequest s.buf with
      | .error f => .error (.http f)
      | .ok (ok, http, buf) =>
        let s := { s with httpContext := some http, buf := buf }
        if ok then
          if http.gotAll then handshakeSucceeded env now http.request s
          else handshakeFailed none s
        else handshakeFailed (some .parse) s

/-- What `parse_message_frame` makes of the result of a handshake. -/
def afterHandshake (wsConnected : Bool) (e : Option HandShakeE) (s : Session) :
    Except Fault (Option HandShakeE × Session) :=
  match e with
  | some .wantMore | some .crlfcrlf => .ok (e, s)
  | some .parse | some .packsz =>
    .ok (e, { s with handshakeCalls := s.handshakeCalls ++ [.sendMessage badRequest, .shutdown] })
  | none => if wsConnected then .ok (none, s) else .error .parseMessageFrame

def parseMessageFrame (s : Session) : Except Fault (Option HandShakeE × Session) :=
  match s.context.state with
  | .kClosed => do
    let (wsConnected, e, s) ← doHandshake env now s
    afterHandshake wsConnected e s
  | .kConnected =>
    match parseFrame env.handler s.toParser with
    | .ok w => .ok (none, { s with toParser := w })
    | .error f => .error (.frame f)

end

/-- Append each chunk to the input buffer and call `parse_message_frame` after it, at the time
that stands beside the chunk. -/
def receive (env : Environment) : Session → List (Bytes × Bytes) → Except Fault Session
  | s, [] => .ok s
  | s, (chunk, now) :: rest => do
    let (_, s) ← parseMessageFrame env now { s with buf := s.buf ++ chunk }
    receive env s rest

end Session

end LibWebsocket.Websocket
