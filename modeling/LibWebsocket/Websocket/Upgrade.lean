import LibWebsocket.Websocket.Handshake

/-! When an upgrade request is answered: only if it arrives in one piece, with nothing behind it
and no header line that stops the parser early. -/
namespace LibWebsocket.Websocket
open Lib Http

namespace Session

variable (env : Environment) (now : Bytes) {s : Session}

/-- Every exit of a handshake asks for the HTTP context. -/
theorem doHandshake_of_released (h : s.httpContext = none) :
    doHandshake env now s = .error .getHttpContext := by
  have hget : s.getHttpContext = .error .getHttpContext := by rw [getHttpContext, h]
  have hfail : ∀ e, handshakeFailed e s = .error .getHttpContext := by
    intro e
    rw [handshakeFailed, resetHttpContext, hget]
    rfl
  unfold doHandshake
  split_ifs
  · exact hfail _
  · exact hfail _
  · split
    · exact hfail _
    · rw [hget]
      rfl

theorem handshakeFailed_eq {http : HttpContext} (e : Option HandShakeE)
    (h : s.httpContext = some http) :
    handshakeFailed e s = .ok (false, e, { s with httpContext := none }) := by
  rw [handshakeFailed, resetHttpContext, getHttpContext, h]
  rfl

/-- An unfinished request costs the context. -/
theorem parseMessageFrame_incomplete {http : HttpContext} (hs : s.context.state = .kClosed)
    (hh : s.httpContext = some http) (hlen : s.buf.length ≤ 1024)
    (hend : Http.Buffer.findCRLFCRLF s.buf = none) :
    ∃ e, parseMessageFrame env now s = .ok (e, { s with httpContext := none }) := by
  by_cases hfew : s.buf.length ≤ 4
  · refine ⟨some .wantMore, ?_⟩
    rw [parseMessageFrame, hs, doHandshake, if_pos hfew, handshakeFailed_eq _ hh]
    rfl
  · refine ⟨some .crlfcrlf, ?_⟩
    rw [parseMessageFrame, hs, doHandshake, if_neg hfew, if_neg (by omega), hend]
    simp only [handshakeFailed_eq _ hh]
    rfl

/-- The state behind a handshake that succeeds. -/
def upgraded (s : Session) (req : HttpRequest) : Session :=
  { s with
    context := { s.context with state := .kConnected }
    buf := []
    httpContext := none
    handshakeCalls := s.handshakeCalls ++ [.sendMessage (env.createWebsocketResponse req now),
      .onConnectedCallback (env.clientIpAddr req)] }

theorem parseMessageFrame_complete {http c : HttpContext} {rest : Bytes}
    (hs : s.context.state = .kClosed) (hh : s.httpContext = some http)
    (hmin : 4 < s.buf.length) (hmax : s.buf.length ≤ 1024)
    (hend : Http.Buffer.findCRLFCRLF s.buf ≠ none)
    (hparse : http.parseRequest s.buf = .ok (true, c, rest)) (hall : c.gotAll = true) :
    parseMessageFrame env now s =
      if rest = [] then .ok (none, s.upgraded env now c.request) else .error .doHandshake := by
  obtain ⟨n, hn⟩ := Option.ne_none_iff_exists'.mp hend
  have hget : s.getHttpContext = .ok http := by rw [getHttpContext, hh]
  rw [parseMessageFrame, hs, doHandshake, if_neg (by omega), if_neg (by omega), hn]
  simp only [hget, hparse, hall, ok_bind, if_true]
  rw [handshakeSucceeded]
  split_ifs with hrest
  · simp only at hrest
    subst hrest
    rfl
  · rfl

/-- The connection is up, answered once with the accept value of `req` and reported once. -/
def Upgraded (req : HttpRequest) (s : Session) : Prop :=
  s.context.state = .kConnected ∧ ∃ now ip, s.handshakeCalls =
    [.sendMessage (env.createWebsocketResponse req now), .onConnectedCallback ip]

/-- A new context with `b` in its input buffer. -/
def received (b : Bytes) : Session := { create with buf := b }

theorem receive_create (chunk : Bytes) (more : List (Bytes × Bytes)) :
    receive env create ((chunk, now) :: more) =
      (parseMessageFrame env now (received chunk)).bind fun r => receive env r.2 more := rfl

theorem upgraded_received (req : HttpRequest) (b : Bytes) :
    (upgraded env now (received b) req).Upgraded env req :=
  ⟨rfl, now, env.clientIpAddr req, rfl⟩

/-- A peer on this host, and a digest that is always empty. -/
def localEnvironment : Environment := ⟨fun _ => [], ascii "127.0.0.1", .retrieveAll⟩

/-- An upgrade request that has no header. -/
def shortRequest : Bytes := ascii "GET / HTTP/1.1\r\n\r\n"

def shortContext : HttpContext := ⟨.kGotAll, ⟨.kGet, .kHttp11, ascii "/", [], []⟩⟩

theorem parseRequest_shortRequest :
    HttpContext.create.parseRequest shortRequest = .ok (true, shortContext, []) := by decide

variable {env} {c : HttpContext} {r rest : Bytes}

theorem findCRLFCRLF_ne_none (h : EndsOnce crlfcrlf r) (t : Bytes) :
    Http.Buffer.findCRLFCRLF (r ++ t) ≠ none := by
  obtain ⟨n, hn, -⟩ := h
  rw [Http.Buffer.findCRLFCRLF, search_append crlfcrlf_ne_nil hn]
  exact Option.some_ne_none n

/-- The handshake call on a request with bytes behind it. -/
theorem parseMessageFrame_received {t : Bytes} (hmax : r.length + t.length ≤ 1024)
    (hend : EndsOnce crlfcrlf r) (hparse : HttpContext.create.parseRequest r = .ok (true, c, rest))
    (hall : c.gotAll = true) :
    parseMessageFrame env now (received (r ++ t)) =
      if t = [] ∧ HeaderLines r then .ok (none, upgraded env now (received (r ++ t)) c.request)
      else .error .doHandshake := by
  have hlen := HttpContext.length_of_gotAll hparse hall
  have happend := HttpContext.parseRequest_append HttpContext.create_reading hparse hall t
  have hcall := parseMessageFrame_complete env now (s := received (r ++ t)) rfl rfl
    (by simp only [received, List.length_append]; omega)
    (by simpa only [received, List.length_append] using hmax) (findCRLFCRLF_ne_none hend t)
    happend hall
  have hiff : rest ++ t = [] ↔ t = [] ∧ HeaderLines r := by
    rw [List.append_eq_nil_iff, and_comm,
      HttpContext.parseRequest_rest_eq_nil_iff hend hparse hall]
  rw [hcall]
  exact if_congr hiff rfl rfl

/-- Bytes coalesced behind a request survive the handshake exactly if there are none, and the
parser reads the request to its end. -/
theorem parseMessageFrame_coalesced_iff {t : Bytes} (hmax : r.length + t.length ≤ 1024)
    (hend : EndsOnce crlfcrlf r) (hparse : HttpContext.create.parseRequest r = .ok (true, c, rest))
    (hall : c.gotAll = true) :
    (∃ s, parseMessageFrame env now (received (r ++ t)) = .ok (none, s) ∧
        s.Upgraded env c.request ∧ s.buf = t) ↔
      t = [] ∧ HeaderLines r := by
  rw [parseMessageFrame_received now hmax hend hparse hall]
  constructor
  · rintro ⟨s, hs, -⟩
    split_ifs at hs with h
    exact h
  · intro h
    refine ⟨_, if_pos h, upgraded_received env now _ _, ?_⟩
    obtain ⟨rfl, -⟩ := h
    rfl

theorem parseMessageFrame_coalesced_shortRequest :
    ∃ s, parseMessageFrame localEnvironment [] (received (shortRequest ++ [])) = .ok (none, s) ∧
      s.Upgraded localEnvironment shortContext.request ∧ s.buf = [] :=
  (parseMessageFrame_coalesced_iff [] (by decide) (by decide) parseRequest_shortRequest rfl).mpr
    ⟨rfl, by decide⟩

/-- One frame byte behind the request kills the process. -/
theorem parseMessageFrame_coalesced_byte :
    EndsOnce crlfcrlf shortRequest ∧
      HttpContext.create.parseRequest shortRequest = .ok (true, shortContext, []) ∧
      shortContext.gotAll = true ∧
      ∀ env, ¬ ∃ s, parseMessageFrame env [] (received (shortRequest ++ [0x81])) = .ok (none, s) ∧
        s.Upgraded env shortContext.request ∧ s.buf = [0x81] := by
  refine ⟨by decide, parseRequest_shortRequest, rfl, fun env => ?_⟩
  rintro ⟨s, hs, -⟩
  cases hs

/-- A request is answered as if it had come at once exactly if it does come at once, and the
parser reads it to its end. -/
theorem receive_upgraded_iff {arrivals : List (Bytes × Bytes)} (hmin : 5 ≤ r.length)
    (hmax : r.length ≤ 1024) (hend : EndsOnce crlfcrlf r)
    (hparse : HttpContext.create.parseRequest r = .ok (true, c, rest)) (hall : c.gotAll = true)
    (hne : ∀ a ∈ arrivals, a.1 ≠ []) (hcut : (arrivals.map Prod.fst).flatten = r) :
    (∃ s, receive env create arrivals = .ok s ∧ s.Upgraded env c.request) ↔
      arrivals.length = 1 ∧ HeaderLines r := by
  match arrivals with
  | [] =>
    obtain rfl : [] = r := hcut
    simp at hmin
  | [(chunk, now)] =>
    obtain rfl : chunk = r := by simpa using hcut
    have hcall : parseMessageFrame env now (received (chunk ++ [])) = _ :=
      parseMessageFrame_received now hmax hend hparse hall
    rw [List.append_nil] at hcall
    rw [receive_create, hcall]
    constructor
    · rintro ⟨s, hs, -⟩
      split_ifs at hs with h
      · exact ⟨rfl, h.2⟩
      · cases hs
    · rintro ⟨-, h⟩
      rw [if_pos ⟨rfl, h⟩]
      exact ⟨_, rfl, upgraded_received env now _ _⟩
  | (chunk, now) :: (chunk', now') :: more =>
    simp only [List.map_cons, List.flatten_cons] at hcut
    have hmore : chunk' ++ (more.map Prod.fst).flatten ≠ [] := by
      have hchunk := hne (chunk', now') (by simp)
      simp_all
    -- the first chunk is a proper beginning of the request, so the second call has no context
    subst hcut
    have hnone := EndsOnce.search_take crlfcrlf_ne_nil hend hmore
    rw [List.length_append] at hmax
    obtain ⟨e, hfirst⟩ := parseMessageFrame_incomplete env now (s := received chunk) rfl rfl
      (by simp only [received]; omega) hnone
    have hsecond : receive env { received chunk with httpContext := none }
        ((chunk', now') :: more) = .error .getHttpContext := by
      rw [receive, parseMessageFrame]
      simp only [received, create, Context.create]
      rw [doHandshake_of_released env now' rfl]
      rfl
    rw [receive_create, hfirst]
    simp only [Except.bind, hsecond]
    simp

theorem receive_upgraded_shortRequest :
    ∃ s, receive localEnvironment create [(shortRequest, [])] = .ok s ∧
      s.Upgraded localEnvironment shortContext.request :=
  (receive_upgraded_iff (by decide) (by decide) (by decide) parseRequest_shortRequest rfl
    (by decide) (by decide)).mpr ⟨rfl, by decide⟩

/-- The same request in two pieces kills the process. -/
theorem receive_two_pieces :
    EndsOnce crlfcrlf shortRequest ∧
      HttpContext.create.parseRequest shortRequest = .ok (true, shortContext, []) ∧
      shortContext.gotAll = true ∧ shortRequest.take 16 ++ shortRequest.drop 16 = shortRequest ∧
      ∀ env, ¬ ∃ s, receive env create [(shortRequest.take 16, []), (shortRequest.drop 16, [])] =
        .ok s ∧ s.Upgraded env shortContext.request := by
  refine ⟨by decide, parseRequest_shortRequest, rfl, by decide, fun env => ?_⟩
  rintro ⟨s, hs, -⟩
  cases hs

end Session

end LibWebsocket.Websocket
