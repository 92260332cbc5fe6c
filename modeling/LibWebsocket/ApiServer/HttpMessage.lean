import LibWebsocket.Http.ClientIp

/-! `ApiServer::onHttpMessage`: every arrival on a connection is parsed at once, and a complete
request is queued for a worker. -/
namespace LibWebsocket.ApiServer
open Lib Http

structure HttpResponse where
  statusCode : ℕ
  statusMessage : Bytes
  closeConnection : Bool
  /-- in the order of the map -/
  headers : List (Bytes × Bytes)
  body : Bytes

namespace HttpResponse

def appendToBuffer (rsp : HttpResponse) : Bytes :=
  ascii "HTTP/1.1 " ++ ascii (toString rsp.statusCode) ++ ascii " " ++ rsp.statusMessage ++ crlf ++
  (if rsp.closeConnection then ascii "Connection: close\r\n"
    else ascii "Content-Length: " ++ ascii (toString rsp.body.length) ++ crlf ++
      ascii "Connection: Keep-Alive\r\n") ++
  (rsp.headers.map fun h => h.1 ++ ascii ": " ++ h.2 ++ crlf).flatten ++ crlf ++ rsp.body

/-- `setFailedResponse` on a new response. -/
def failed (close : Bool) (code : ℕ) (msg : Bytes) : HttpResponse where
  statusCode := code
  statusMessage := ascii "OK"
  closeConnection := close
  headers := [(ascii "Content-Type", ascii "text/plain;charset=utf-8"),
    (ascii "Server", ascii "MUDUO")]
  body := msg

end HttpResponse

inductive IpVisitCtrlE
  | kOpen | kClosed
deriving DecidableEq, Repr

inductive IpVisitE
  | kEnable | kDisable
deriving DecidableEq, Repr

/-- The filter on the client's address. `ipNetEndian` is the address that `InetAddress` makes of
a text. -/
structure IpFilter where
  whiteListControl : IpVisitCtrlE
  adminList : List UInt32
  whiteList : List (UInt32 × IpVisitE)
  ipNetEndian : Bytes → UInt32
  peerIp : Bytes

namespace IpFilter

variable (f : IpFilter)

def isIpAllowed (req : HttpRequest) : Bool :=
  let ip := f.ipNetEndian (clientIp isIpAddr f.peerIp req)
  f.adminList.contains ip ∨ f.whiteList.lookup ip = some .kEnable

end IpFilter

/-- What `onHttpMessage` does to the connection and the worker. -/
inductive Call
  | updateBucket
  | asyncHttpHandler
  | send (data : Bytes)
  | forceClose
deriving DecidableEq, Repr

/-- A connection with its parse context, whether its entry is alive, the calls made so far and
the counter of bad requests. -/
structure HttpConn where
  httpContext : HttpContext
  buf : Bytes
  entry : Bool
  calls : List Call
  numTotalBadReq : ℕ
deriving DecidableEq

/-- A connection as `onHttpConnection` leaves it. -/
def HttpConn.create (numTotalBadReq : ℕ) : HttpConn :=
  { httpContext := .create, buf := [], entry := true, calls := [], numTotalBadReq }

def badRequest : Bytes :=
  (HttpResponse.failed false 404 (ascii "HTTP/1.1 400 Bad Request\r\n\r\n")).appendToBuffer

namespace HttpConn

def call (s : HttpConn) (cs : List Call) : HttpConn := { s with calls := s.calls ++ cs }

def countBadReq (s : HttpConn) : HttpConn := { s with numTotalBadReq := s.numTotalBadReq + 1 }

variable (f : IpFilter)

/-- The branch for a complete request. -/
def onGotAll (s : HttpConn) : HttpConn :=
  if f.whiteListControl = .kOpen ∧ ¬ f.isIpAllowed s.httpContext.request then
    (s.call [.forceClose]).countBadReq
  else if s.entry then s.call [.updateBucket, .asyncHttpHandler]
  else s.countBadReq

/-- Everything else ends here, a request that is still incomplete too. -/
def onFailed (s : HttpConn) : HttpConn :=
  countBadReq { s.call [.send badRequest] with httpContext := s.httpContext.reset }

def onHttpMessage (s : HttpConn) : Except Failure HttpConn := do
  let (ok, httpContext, buf) ← s.httpContext.parseRequest s.buf
  let s := { s with httpContext, buf }
  pure (if ok ∧ httpContext.gotAll then s.onGotAll f else s.onFailed)

/-- Append each arrival to the input buffer and call `onHttpMessage` after it. -/
def receive : HttpConn → List Bytes → Except Failure HttpConn
  | s, [] => .ok s
  | s, chunk :: chunks => do
    let s ← onHttpMessage f { s with buf := s.buf ++ chunk }
    receive s chunks

variable {f} {s s' : HttpConn}

theorem onHttpMessage_eq_ok {ok : Bool} {http : HttpContext} {buf : Bytes}
    (h : s.httpContext.parseRequest s.buf = .ok (ok, http, buf)) :
    onHttpMessage f s = .ok (if ok ∧ http.gotAll then
      onGotAll f { s with httpContext := http, buf := buf }
      else onFailed { s with httpContext := http, buf := buf }) := by
  rw [onHttpMessage, h]
  rfl

/-- What an arrival adds to the calls. -/
theorem onHttpMessage_calls (h : onHttpMessage f s = .ok s') :
    ∃ cs, s'.calls = s.calls ++ cs ∧
      (f.whiteListControl = .kClosed → s.entry = true →
        .asyncHttpHandler ∈ cs ∨ .send badRequest ∈ cs) := by
  rcases hp : s.httpContext.parseRequest s.buf with e | ⟨ok, http, buf⟩
  · rw [onHttpMessage, hp] at h
    cases h
  · rw [onHttpMessage_eq_ok hp] at h
    cases h
    split_ifs
    · unfold onGotAll
      split_ifs with hfilter hentry
      · exact ⟨[.forceClose], rfl, fun hctrl _ => absurd hfilter.1 (by simp [hctrl])⟩
      · exact ⟨[.updateBucket, .asyncHttpHandler], rfl, fun _ _ => .inl (by simp)⟩
      · exact ⟨[], by simp [countBadReq], fun _ he => absurd he hentry⟩
    · exact ⟨[.send badRequest], rfl, fun _ _ => .inr (by simp)⟩

theorem receive_calls {chunks : List Bytes} (h : receive f s chunks = .ok s') :
    s.calls <+: s'.calls := by
  induction chunks generalizing s with
  | nil =>
    cases h
    exact List.prefix_rfl
  | cons chunk chunks ih =>
    rw [receive] at h
    rcases hone : onHttpMessage f { s with buf := s.buf ++ chunk } with e | s₁
    · rw [hone] at h
      cases h
    · rw [hone] at h
      obtain ⟨cs, hcs, -⟩ := onHttpMessage_calls hone
      exact List.IsPrefix.trans ⟨cs, hcs.symm⟩ (ih h)

/-- One task for `req` is queued, on the last arrival, and nothing is answered or counted as
bad. -/
def DispatchedOnce (f : IpFilter) (n : ℕ) (req : HttpRequest) (chunks : List Bytes) : Prop :=
  (∃ s, receive f (create n) chunks.dropLast = .ok s ∧ .asyncHttpHandler ∉ s.calls) ∧
  ∃ s, receive f (create n) chunks = .ok s ∧ s.calls.count .asyncHttpHandler = 1 ∧
    .send badRequest ∉ s.calls ∧ s.numTotalBadReq = n ∧ s.httpContext.request = req

/-- Whatever comes first, it is answered as bad or dispatched. -/
theorem not_dispatchedOnce_of_two {n : ℕ} {req : HttpRequest} {chunk chunk' : Bytes}
    {more : List Bytes} (hctrl : f.whiteListControl = .kClosed) :
    ¬ DispatchedOnce f n req (chunk :: chunk' :: more) := by
  rintro ⟨⟨s, hs, htask⟩, s', hs', -, hsend, -, -⟩
  rw [List.dropLast_cons_cons, receive] at hs
  rw [receive] at hs'
  rcases hone : onHttpMessage f { create n with buf := (create n).buf ++ chunk } with e | s₁
  · rw [hone] at hs
    cases hs
  · rw [hone] at hs hs'
    obtain ⟨cs, hcs, hcall⟩ := onHttpMessage_calls hone
    have hcs' : s₁.calls = cs := hcs
    rcases hcall hctrl rfl with h | h
    · exact htask ((receive_calls hs).subset (hcs' ▸ h))
    · exact hsend ((receive_calls hs').subset (hcs' ▸ h))

/-- A request is dispatched as its whole delivery is exactly if it is delivered whole. -/
theorem dispatchedOnce_iff {c : HttpContext} {n : ℕ} {r rest : Bytes} {chunks : List Bytes}
    (hctrl : f.whiteListControl = .kClosed)
    (hparse : HttpContext.create.parseRequest r = .ok (true, c, rest)) (hall : c.gotAll = true)
    (hcut : chunks.flatten = r) :
    DispatchedOnce f n c.request chunks ↔ chunks.length = 1 := by
  match chunks with
  | [] =>
    subst hcut
    cases hparse
    cases hall
  | [chunk] =>
    obtain rfl : chunk = r := by simpa using hcut
    have hcall : receive f (create n) [chunk] = .ok { create n with
        httpContext := c, buf := rest, calls := [.updateBucket, .asyncHttpHandler] } := by
      rw [receive, onHttpMessage_eq_ok (s := { create n with buf := (create n).buf ++ chunk }) hparse]
      simp only [hall, and_self, if_true, onGotAll, hctrl]
      rfl
    refine iff_of_true ⟨⟨create n, rfl, by simp [create]⟩, _, hcall, rfl, ?_, rfl, rfl⟩ rfl
    simp
  | chunk :: chunk' :: more =>
    exact iff_of_false (not_dispatchedOnce_of_two hctrl) (by simp)

/-- A filter that lets everything pass. -/
def noFilter : IpFilter := ⟨.kClosed, [], [], fun _ => 0, []⟩

theorem dispatchedOnce_whole :
    DispatchedOnce noFilter 0 ⟨.kGet, .kHttp11, ascii "/", [], []⟩
      [ascii "GET / HTTP/1.1\r\n\r\n"] :=
  have hparse : HttpContext.create.parseRequest (ascii "GET / HTTP/1.1\r\n\r\n") =
      .ok (true, ⟨.kGotAll, ⟨.kGet, .kHttp11, ascii "/", [], []⟩⟩, []) := by decide
  (dispatchedOnce_iff rfl hparse rfl rfl).mpr rfl

/-- The same request in two pieces is answered twice with an error. -/
theorem not_dispatchedOnce_two_pieces :
    HttpContext.create.parseRequest (ascii "GET / HTTP/1.1\r\n" ++ ascii "\r\n") =
        .ok (true, ⟨.kGotAll, ⟨.kGet, .kHttp11, ascii "/", [], []⟩⟩, []) ∧
      ¬ DispatchedOnce noFilter 0 ⟨.kGet, .kHttp11, ascii "/", [], []⟩
        [ascii "GET / HTTP/1.1\r\n", ascii "\r\n"] := by
  refine ⟨by decide, ?_⟩
  rintro ⟨-, s, hs, htask, -⟩
  cases hs
  revert htask
  decide

end HttpConn

end LibWebsocket.ApiServer
