import LibWebsocket.Http.Forwarded
import LibWebsocket.Websocket.Upgrade

/-! The address that a handshake reports to the owner of the connection. -/
namespace LibWebsocket.Websocket
open Lib Http

namespace Session

variable {env : Environment} {now rest : Bytes} {s s₁ : Session} {e : Option HandShakeE}
  {http c : HttpContext}

theorem handshakeFailed_ne_true {e' : Option HandShakeE} :
    handshakeFailed e' s ≠ .ok (true, e, s₁) := by
  intro h
  unfold handshakeFailed at h
  rcases hr : s.resetHttpContext with f | s'
  · rw [hr] at h
    cases h
  · rw [hr] at h
    cases h

/-- A handshake that succeeds does so in every environment. -/
theorem doHandshake_succeeds (hh : s.httpContext = some http)
    (hparse : http.parseRequest s.buf = .ok (true, c, rest))
    (h : doHandshake env now s = .ok (true, e, s₁)) (env' : Environment) :
    doHandshake env' now s = .ok (true, none, s.upgraded env' now c.request) := by
  have hget : s.getHttpContext = .ok http := by rw [getHttpContext, hh]
  unfold doHandshake at h ⊢
  split_ifs at h ⊢ with hfew hmany
  · exact absurd h handshakeFailed_ne_true
  · exact absurd h handshakeFailed_ne_true
  · cases hend : Http.Buffer.findCRLFCRLF s.buf with
    | none =>
      rw [hend] at h
      exact absurd h handshakeFailed_ne_true
    | some p =>
      rw [hend] at h
      simp only [hget, hparse, ok_bind, if_true] at h ⊢
      split_ifs at h ⊢ with hall
      · unfold handshakeSucceeded at h ⊢
        split_ifs at h ⊢ with hrest
        subst hrest
        rfl
      · exact absurd h handshakeFailed_ne_true

/-- The value of the header that proxies add to. -/
def forwardedFor (req : HttpRequest) : Bytes := req.getHeader (ascii "X-Forwarded-For")

/-- Whatever the peer's address, a handshake that succeeds reports the first forwarded address
that is not private, or else the peer's, exactly if nothing is forwarded, or if the first entry
that is not private by the code's tests or by RFC 1918 is so by both. -/
theorem doHandshake_address_iff (hh : s.httpContext = some http)
    (hparse : http.parseRequest s.buf = .ok (true, c, rest))
    (h : doHandshake env now s = .ok (true, e, s₁)) :
    (∀ peer, ∃ s₂ rsp, doHandshake { env with peerIpAddr := peer } now s = .ok (true, none, s₂) ∧
        s₂.handshakeCalls = s.handshakeCalls ++ [.sendMessage rsp,
          .onConnectedCallback (forwardedAddress peer (forwardedFor c.request))]) ↔
      forwardedFor c.request = [] ∨ SameChoice (forwardedFor c.request) := by
  have haddress := clientIp_eq_forwardedAddress_iff c.request
  rw [forwardedFor, ← haddress]
  refine forall_congr' fun peer => ?_
  have hsucceeds := doHandshake_succeeds hh hparse h { env with peerIpAddr := peer }
  constructor
  · rintro ⟨s₂, rsp, hs₂, hcalls⟩
    rw [hsucceeds] at hs₂
    cases hs₂
    have hlast := List.append_cancel_left hcalls
    simp only [List.cons.injEq, HandshakeCall.onConnectedCallback.injEq] at hlast
    exact hlast.2.1
  · intro heq
    refine ⟨_, env.createWebsocketResponse c.request now, hsucceeds, ?_⟩
    rw [← heq]
    rfl

/-- An upgrade request that came through a proxy. -/
def proxiedRequest (ips : String) : Bytes :=
  ascii "GET / HTTP/1.1\r\nX-Forwarded-For: " ++ ascii ips ++ crlfcrlf

def proxiedContext (ips : String) : HttpContext :=
  ⟨.kGotAll, ⟨.kGet, .kHttp11, ascii "/", [], [(ascii "X-Forwarded-For", ascii ips)]⟩⟩

theorem doHandshake_address_public :
    ∃ s₂ rsp, doHandshake { localEnvironment with peerIpAddr := ascii "1.2.3.4" } []
        (received (proxiedRequest "10.0.0.1, 8.8.8.8")) = .ok (true, none, s₂) ∧
      s₂.handshakeCalls = [] ++ [.sendMessage rsp, .onConnectedCallback (forwardedAddress
        (ascii "1.2.3.4") (forwardedFor (proxiedContext "10.0.0.1, 8.8.8.8").request))] :=
  (doHandshake_address_iff (s := received (proxiedRequest "10.0.0.1, 8.8.8.8"))
    (c := proxiedContext "10.0.0.1, 8.8.8.8") rfl
    (show HttpContext.create.parseRequest (proxiedRequest "10.0.0.1, 8.8.8.8") =
      .ok (true, _, []) by decide)
    (show doHandshake localEnvironment [] _ = .ok (true, none, _) from rfl)).mpr
    (.inr ⟨ascii "8.8.8.8", by decide, by decide, by decide⟩) (ascii "1.2.3.4")

/-- Behind a private proxy alone the address is empty, and a private address of 172.16/12 is taken
for the client's. -/
theorem doHandshake_address_lost :
    (∃ s₂ rsp, doHandshake localEnvironment [] (received (proxiedRequest "10.0.0.1")) =
        .ok (true, none, s₂) ∧ s₂.handshakeCalls = [.sendMessage rsp, .onConnectedCallback []]) ∧
      forwardedAddress localEnvironment.peerIpAddr (ascii "10.0.0.1") = ascii "127.0.0.1" ∧
      (∃ s₂ rsp, doHandshake localEnvironment [] (received (proxiedRequest "172.20.0.1, 8.8.8.8")) =
        .ok (true, none, s₂) ∧
        s₂.handshakeCalls = [.sendMessage rsp, .onConnectedCallback (ascii "172.20.0.1")]) ∧
      forwardedAddress localEnvironment.peerIpAddr (ascii "172.20.0.1, 8.8.8.8") =
        ascii "8.8.8.8" :=
  ⟨⟨_, _, rfl, rfl⟩, by decide, ⟨_, _, rfl, rfl⟩, by decide⟩

end Session

end LibWebsocket.Websocket
