import LibWebsocket.Http.BlankLine
import LibWebsocket.Websocket.Upgrade

/-! How a handshake is refused. A call that returns without a connection always says why, and has
said nothing to the owner of the connection. -/
namespace LibWebsocket.Websocket
open Lib Http

namespace Session

variable (env : Environment) (now : Bytes) {s : Session}

/-- A handshake on a new HTTP context is refused for a reason, succeeds, or stops at bytes behind
the request. -/
theorem doHandshake_fresh (hfresh : s.httpContext = some .create) :
    (∃ code buf, doHandshake env now s =
        .ok (false, some code, { s with buf := buf, httpContext := none })) ∨
      (∃ req, doHandshake env now s = .ok (true, none, s.upgraded env now req)) ∨
      doHandshake env now s = .error .doHandshake := by
  unfold doHandshake
  split_ifs with hfew hmany
  · exact .inl ⟨.wantMore, s.buf, handshakeFailed_eq _ hfresh⟩
  · exact .inl ⟨.packsz, s.buf, handshakeFailed_eq _ hfresh⟩
  · cases hend : Http.Buffer.findCRLFCRLF s.buf with
    | none => exact .inl ⟨.crlfcrlf, s.buf, handshakeFailed_eq _ hfresh⟩
    | some p =>
      have hget : s.getHttpContext = .ok .create := by rw [getHttpContext, hfresh]
      rw [hget]
      simp only [ok_bind]
      obtain ⟨c, rest, hparse, hall⟩ | ⟨c, rest, hparse⟩ := HttpContext.parseRequest_create_cases hend
      · rw [hparse]
        simp only [hall, if_true, handshakeSucceeded]
        split_ifs with hrest
        · refine .inr (.inl ⟨c.request, ?_⟩)
          subst hrest
          rfl
        · exact .inr (.inr rfl)
      · rw [hparse]
        exact .inl ⟨.parse, rest, handshakeFailed_eq _ rfl⟩

/-- Every handshake on a closed context with a new HTTP context returns or stops at its own
assertion about bytes behind the request. If it returns false it has an error code, leaves the
context closed and has made no call, so `parse_message_frame` never meets a failure without a
code: a buffer with a blank line that is parsed is parsed to its end. -/
theorem doHandshake_refused (s : Session) (hclosed : s.context.state = .kClosed)
    (hfresh : s.httpContext = some .create) :
    ((∃ r, doHandshake env now s = .ok r) ∨ doHandshake env now s = .error .doHandshake) ∧
      (∀ e s', doHandshake env now s = .ok (false, e, s') →
        (∃ code, e = some code) ∧ s'.context.state = .kClosed ∧
          s'.handshakeCalls = s.handshakeCalls) ∧
      parseMessageFrame env now s ≠ .error .parseMessageFrame ∧
      (5 ≤ s.buf.length → s.buf.length ≤ 1024 → ∀ p c rest,
        Http.Buffer.findCRLFCRLF s.buf = some p →
          HttpContext.create.parseRequest s.buf = .ok (true, c, rest) → c.gotAll = true) := by
  have hgotAll : ∀ p c rest, Http.Buffer.findCRLFCRLF s.buf = some p →
      HttpContext.create.parseRequest s.buf = .ok (true, c, rest) → c.gotAll = true := by
    intro p c rest hend hparse
    obtain ⟨c', rest', hparse', hall⟩ | ⟨c', rest', hparse'⟩ :=
      HttpContext.parseRequest_create_cases hend
    · rw [hparse] at hparse'
      cases hparse'
      exact hall
    · rw [hparse] at hparse'
      cases hparse'
  have hcall : parseMessageFrame env now s =
      (doHandshake env now s).bind fun r => afterHandshake r.1 r.2.1 r.2.2 := by
    rw [parseMessageFrame, hclosed]
    rfl
  rw [hcall]
  obtain ⟨code, buf, hret⟩ | ⟨req, hret⟩ | hret := doHandshake_fresh env now hfresh
  · rw [hret]
    refine ⟨.inl ⟨_, rfl⟩, ?_, ?_, fun _ _ => hgotAll⟩
    · intro e s' h
      cases h
      exact ⟨⟨code, rfl⟩, hclosed, rfl⟩
    · cases code <;> simp [Except.bind, afterHandshake]
  · rw [hret]
    refine ⟨.inl ⟨_, rfl⟩, ?_, ?_, fun _ _ => hgotAll⟩
    · intro e s' h
      cases h
    · simp [Except.bind, afterHandshake]
  · rw [hret]
    refine ⟨.inr rfl, ?_, ?_, fun _ _ => hgotAll⟩
    · intro e s' h
      cases h
    · simp [Except.bind]

/-- A request line without a version. -/
theorem doHandshake_refused_line :
    ((∃ r, doHandshake localEnvironment [] (received (ascii "GET /\r\n\r\n")) = .ok r) ∨
        doHandshake localEnvironment [] (received (ascii "GET /\r\n\r\n")) =
          .error .doHandshake) ∧
      (∀ e s', doHandshake localEnvironment [] (received (ascii "GET /\r\n\r\n")) =
          .ok (false, e, s') →
        (∃ code, e = some code) ∧ s'.context.state = .kClosed ∧ s'.handshakeCalls = []) ∧
      parseMessageFrame localEnvironment [] (received (ascii "GET /\r\n\r\n")) ≠
        .error .parseMessageFrame ∧
      (5 ≤ (ascii "GET /\r\n\r\n").length → (ascii "GET /\r\n\r\n").length ≤ 1024 → ∀ p c rest,
        Http.Buffer.findCRLFCRLF (ascii "GET /\r\n\r\n") = some p →
          HttpContext.create.parseRequest (ascii "GET /\r\n\r\n") = .ok (true, c, rest) →
            c.gotAll = true) :=
  doHandshake_refused localEnvironment [] (received (ascii "GET /\r\n\r\n")) rfl rfl

end Session

end LibWebsocket.Websocket
