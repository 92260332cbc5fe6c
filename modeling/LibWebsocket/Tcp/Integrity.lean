import LibWebsocket.Tcp.Healthy

/-! The outgoing stream: what the transport has accepted and what waits in the output buffer are
the bytes that were sent, in order. Without SSL `sendInLoop` appends the wrong end of a message
that was written in part, so there this needs writes that are not cut in the middle. -/
namespace LibWebsocket.Tcp
open Lib

def Event.accepted : Event → Bytes
  | .write data n | .sslWrite _ data n => data.take n
  | _ => []

namespace Conn
variable {c c' : Conn} {data : Bytes} {w : Writes} {n errno : ℕ}

/-- The bytes the transport has accepted so far. -/
def accepted (c : Conn) : Bytes := c.trace.flatMap Event.accepted

/-- `sendInLoop` and `handleWrite` only, with the bytes that were sent so far. -/
def sendStep : Conn × Bytes → Action → Option (Conn × Bytes)
  | (c, sent), .sendInLoop data w => some (c.sendInLoop data w, sent ++ data)
  | (c, sent), .handleWrite h w => some (c.handleWrite h w, sent)
  | _, _ => none

/-- An established connection, plain or with an SSL session, before anything is sent. -/
structure Ready (c : Conn) : Prop where
  state : c.state = .kConnected
  session : c.sslCtx = c.ssl ∧ c.sslConnected = c.ssl
  outputBuffer : c.outputBuffer = []
  isWriting : c.ssl = false → c.channel.isWriting = false
  accepted : c.accepted = []

/-- Each call takes some of the bytes or would block; `errno` is 0 unless it says so. A call of
`write(2)` that takes none of them returns 0. -/
def WouldBlock (c : Conn) (data : Bytes) (w : Writes) : Prop :=
  (c.ssl = true → (c.written data.length w).1 ≠ data.length →
      w.sslError = SSL_ERROR_WANT_WRITE) ∧
    (c.ssl = false → w.errno =
      if (c.written data.length w).1 = data.length ∨ w.stop = .zero then 0 else EAGAIN)

/-- The transport behaves like that, and what is sent is not empty. -/
def Behaved (s : Conn × Bytes) : Action → Prop
  | .sendInLoop data w => data ≠ [] ∧ s.1.WouldBlock data w
  | .handleWrite _ w => s.1.WouldBlock s.1.outputBuffer w
  | _ => True

/-- Without SSL, no write returns 0, and a direct write is not cut at a place where the beginning
of the message differs from its end. -/
def Uncut (s : Conn × Bytes) : Action → Prop
  | .sendInLoop data w => s.1.ssl = false → s.1.Direct →
    data.take (data.length - (s.1.written data.length w).1) =
        data.drop (s.1.written data.length w).1 ∧
      ((s.1.written data.length w).1 ≠ data.length → w.stop = .failed)
  | .handleWrite _ w => s.1.ssl = false → s.1.channel.isWriting = true →
    (s.1.written s.1.outputBuffer.length w).1 ≠ s.1.outputBuffer.length → w.stop = .failed
  | _ => True

instance : Decidable (c.WouldBlock data w) := inferInstanceAs (Decidable (_ ∧ _))

instance {s : Conn × Bytes} : ∀ {a : Action}, Decidable (Behaved s a)
  | .sendInLoop _ _ => inferInstanceAs (Decidable (_ ∧ WouldBlock _ _ _))
  | .handleWrite _ _ => inferInstanceAs (Decidable (WouldBlock _ _ _))
  | .connectEstablished _ | .handleRead _ _ _ | .handleClose _ | .forceCloseInLoop _ | .user _ =>
    .isTrue trivial

instance {s : Conn × Bytes} : ∀ {a : Action}, Decidable (Uncut s a)
  | .sendInLoop _ _ => inferInstanceAs (Decidable (_ → _))
  | .handleWrite _ _ => inferInstanceAs (Decidable (_ → _))
  | .connectEstablished _ | .handleRead _ _ _ | .handleClose _ | .forceCloseInLoop _ | .user _ =>
    .isTrue trivial

/-! ## What the pieces accept and keep -/

theorem accepted_frame (h : Frame (·.accepted = []) c c') : c'.accepted = c.accepted := by
  obtain ⟨es, he, hes⟩ := h.trace
  rw [accepted, he, List.flatMap_append, List.flatMap_eq_nil_iff.mpr hes, List.append_nil, accepted]

theorem accepted_transmit :
    (c.transmit data w).accepted = c.accepted ++ data.take (c.written data.length w).1 := by
  unfold transmit
  split_ifs with hd hs
  · simp [hd]
  all_goals simp [accepted, log, setErrno, Event.accepted]

theorem accepted_handleClose : (c.handleClose errno).accepted = c.accepted := by
  simp [accepted, handleClose, Event.accepted]

theorem accepted_directWrite :
    (c.directWrite data w).accepted = c.accepted ++ data.take (c.written data.length w).1 := by
  have hwritten : (c.directWritten data w).accepted = (c.transmit data w).accepted := by
    dsimp only [directWritten]
    split_ifs
    · exact accepted_frame (queueWriteComplete_frame fun _ => rfl)
    · rfl
  rw [← accepted_transmit, ← hwritten]
  dsimp only [directWrite]
  split_ifs
  · exact accepted_handleClose
  · exact accepted_frame .setErrno

theorem accepted_react {r : Reaction} : (c.react errno r).accepted = c.accepted := by
  by_cases hr : r = .close
  · rw [hr]
    exact accepted_handleClose
  · exact accepted_frame (react_frame hr)

theorem accepted_flush : (c.flush w).accepted =
    c.accepted ++ c.outputBuffer.take (c.written c.outputBuffer.length w).1 := by
  dsimp only [flush]
  rw [accepted_react, ← accepted_transmit]
  have hf : Frame (·.accepted = []) (c.transmit c.outputBuffer w)
      ((c.transmit c.outputBuffer w).retrieveOutput (c.written c.outputBuffer.length w).1) :=
    retrieveOutput_frame (fun _ => rfl) rfl
  exact accepted_frame (hf.trans .setErrno)

theorem outputBuffer_directWrite : (c.directWrite data w).outputBuffer = c.outputBuffer := by
  dsimp only [directWrite]
  split_ifs <;> exact directWritten_calm.outputBuffer

theorem outputBuffer_appendOutput :
    (c.appendOutput data).outputBuffer = c.outputBuffer ++ data := by
  unfold appendOutput
  split_ifs with hd <;> simp [hd]

theorem outputBuffer_react {r : Reaction} : (c.react errno r).outputBuffer = c.outputBuffer := by
  cases r with
  | rearm =>
    dsimp only [react]
    split_ifs <;> rfl
  | _ => rfl

theorem outputBuffer_flush : (c.flush w).outputBuffer =
    c.outputBuffer.drop (c.written c.outputBuffer.length w).1 := by
  dsimp only [flush]
  rw [outputBuffer_react, setErrno, retrieveOutput_calm.outputBuffer, transmit_calm.outputBuffer]

theorem channel_directWrite (hr : (c.directReaction data w).1 ≠ .close) :
    (c.directWrite data w).channel = c.channel := by
  simp only [directWrite, if_neg hr]
  exact directWritten_calm.channel

theorem errno_directWrite (hr : (c.directReaction data w).1 ≠ .close) :
    (c.directWrite data w).errno = (c.directReaction data w).2 := by
  simp only [directWrite, if_neg hr, setErrno]

/-- Write interest goes with bytes to write. -/
theorem appendOutput_isWriting (h : c.channel.isWriting = true → c.outputBuffer ≠ [])
    (hw : (c.appendOutput data).channel.isWriting = true) :
    (c.appendOutput data).outputBuffer ≠ [] := by
  rw [outputBuffer_appendOutput]
  by_cases hd : data = []
  · rw [appendOutput, if_pos hd] at hw
    simpa [hd] using h hw
  · simp [hd]

/-- Write interest is given up with the last byte. -/
theorem flush_isWriting (hr : (c.directReaction c.outputBuffer w).1 = .ignore)
    (hn : (c.written c.outputBuffer.length w).1 = c.outputBuffer.length)
    (hne : c.outputBuffer ≠ []) : (c.flush w).channel.isWriting = false := by
  have hlen : c.outputBuffer.length ≠ 0 := by simpa using hne
  dsimp only [flush]
  rw [directReaction] at hr
  rw [retrieveOutput_writeReaction, hr, hn]
  rw [react, setErrno, retrieveOutput_calm.channel]
  have hall : ¬ (c.outputBuffer.length = 0 ∨
      (c.transmit c.outputBuffer w).outputBuffer.drop c.outputBuffer.length ≠ []) := by
    simp [hlen, transmit_calm.outputBuffer]
  rw [if_neg hall, Channel.disableWriting]

/-! ## Results that would block -/

theorem directReaction_ssl (hssl : c.ssl = true) (hb : c.WouldBlock data w) :
    (c.directReaction data w).1 ≠ .close := by
  have hs : (c.transmit data w).ssl = true := transmit_apart.ssl.trans hssl
  have hwant := hb.1 hssl
  rw [directReaction, writeReaction, if_pos hs]
  rw [written, if_pos hssl] at hwant ⊢
  rw [sslWrite_savedErrno]
  split_ifs with hall
  · simp [sslWriteReaction, SSL_ERROR_WANT_WRITE]
  · simp [sslWriteReaction, hwant hall]

/-- Without SSL, the code ignores a write of everything and waits behind one that was cut. -/
theorem directReaction_wouldBlock (hssl : c.ssl = false) (hd : data ≠ [])
    (hb : c.WouldBlock data w)
    (hstop : (c.written data.length w).1 ≠ data.length → w.stop = .failed) :
    c.directReaction data w =
      (if (c.written data.length w).1 = data.length then .ignore else .wantWrite, 0) := by
  have hpos : 0 < data.length := List.length_pos_iff.mpr hd
  have herrno := hb.2 hssl
  rw [directReaction_plain hssl, transmit_errno hd, herrno]
  rw [written_plain hssl] at hstop ⊢
  by_cases hall : (writeFull w.stop w.counts data.length 0).1 = data.length
  · have hsaved := writeFull_pos hall (Or.inl hpos)
    rw [if_pos (Or.inl hall), if_pos hall, plainWrite, plainReaction, if_pos hsaved]
    rfl
  · have hlt := writeFull_le.lt_of_ne hall
    have hstop := hstop hall
    have hblock : ¬ ((writeFull w.stop w.counts data.length 0).1 = data.length ∨ w.stop = .zero) :=
      not_or.mpr ⟨hall, by simp [hstop]⟩
    rw [if_neg hblock, if_neg hall, writeFull_of_lt hlt, hstop]
    rfl

theorem ne_close_of_waits {p : Prop} [Decidable p] {r : Reaction × ℕ}
    (h : r = (if p then .ignore else .wantWrite, 0)) : r.1 ≠ .close := by
  rw [h]
  dsimp only
  split_ifs <;> simp

/-! ## Runs -/

/-- Open, with an SSL session that is established if there is one, write interest only for bytes
that wait, and no byte lost, repeated or moved. -/
structure Intact (s : Conn × Bytes) : Prop where
  state : s.1.state = .kConnected
  session : s.1.sslCtx = s.1.ssl ∧ s.1.sslConnected = s.1.ssl
  isWriting : s.1.ssl = false → s.1.channel.isWriting = true → s.1.outputBuffer ≠ []
  stream : s.1.accepted ++ s.1.outputBuffer = s.2

variable {sent sent' : Bytes} {a : Action}

theorem Ready.intact (h : c.Ready) : Intact (c, []) where
  state := h.state
  session := h.session
  isWriting := fun hssl hw => by simp [h.isWriting hssl] at hw
  stream := by rw [h.accepted, h.outputBuffer, List.append_nil]

namespace Intact

theorem of_frame {P : Event → Prop} (h : Intact (c, sent)) (hf : Frame P c c')
    (hw : c'.ssl = false → c'.channel.isWriting = true → c'.outputBuffer ≠ [])
    (hs : c'.accepted ++ c'.outputBuffer = sent') : Intact (c', sent') where
  state := hf.state.trans h.state
  session := by
    rw [hf.sslCtx, hf.sslConnected, hf.ssl]
    exact h.session
  isWriting := hw
  stream := hs

theorem not_handshaking (h : Intact (c, sent)) : ¬ c.Handshaking := by
  rintro ⟨hctx, hconn⟩
  have hssl : c.ssl = true := h.session.1.symm.trans hctx
  exact absurd (h.session.2.symm.trans hconn) (by simp [hssl])

theorem appendOutput (h : Intact (c, sent)) : Intact (c.appendOutput data, sent ++ data) := by
  have hf : Frame (·.accepted = []) c (c.appendOutput data) := appendOutput_frame fun _ => rfl
  apply h.of_frame hf
  · intro hssl
    exact appendOutput_isWriting (h.isWriting (hf.ssl.symm.trans hssl))
  · rw [accepted_frame hf, outputBuffer_appendOutput, ← List.append_assoc, h.stream]

/-- What is appended behind a direct write is what the transport has not accepted. -/
theorem directWrite (h : Intact (c, sent)) (hd : c.Direct)
    (hr : (c.directReaction data w).1 ≠ .close)
    (hleft : c.leftover data w = data.drop (c.written data.length w).1) :
    Intact ((c.directWrite data w).appendOutput (c.leftover data w), sent ++ data) := by
  obtain ⟨c₁, hf, he⟩ : ∃ c₁, Frame Apart c c₁ ∧ c.directWrite data w = _ := directWrite_apart
  rw [if_neg hr] at he
  have hsent : c.accepted = sent := by simpa [hd.2] using h.stream
  have hwritten : Intact (c.directWrite data w, sent ++ data.take (c.written data.length w).1) := by
    apply h.of_frame (he ▸ hf)
    · intro _ hw
      rw [channel_directWrite hr, hd.1] at hw
      exact absurd hw Bool.false_ne_true
    · rw [accepted_directWrite, outputBuffer_directWrite, hd.2, List.append_nil, hsent]
  have hall : Intact (_, (sent ++ data.take (c.written data.length w).1) ++ c.leftover data w) :=
    hwritten.appendOutput
  rwa [hleft, List.append_assoc, List.take_append_drop, ← hleft] at hall

theorem sendInLoop (h : Intact (c, sent)) (hb : Behaved (c, sent) (.sendInLoop data w))
    (hcut : Uncut (c, sent) (.sendInLoop data w)) :
    Intact (c.sendInLoop data w, sent ++ data) := by
  have hopen : c.state ≠ .kDisconnected := by
    rw [h.state]
    decide
  rw [Conn.sendInLoop, if_neg hopen]
  split_ifs with hd
  · cases hssl : c.ssl with
    | true =>
      exact h.directWrite hd (directReaction_ssl hssl hb.2) (by rw [leftover, if_pos hssl])
    | false =>
      obtain ⟨htake, hstop⟩ := hcut hssl hd
      have hreact := directReaction_wouldBlock hssl hb.1 hb.2 hstop
      have hr := ne_close_of_waits hreact
      have herrno : (c.directWrite data w).errno = 0 := by rw [errno_directWrite hr, hreact]
      apply h.directWrite hd hr
      rw [leftover, hssl, if_neg Bool.false_ne_true, herrno, if_neg (by decide), htake]
  · exact h.appendOutput

theorem handleWrite (h : Intact (c, sent)) {hs : Handshake}
    (hb : Behaved (c, sent) (.handleWrite hs w)) (hcut : Uncut (c, sent) (.handleWrite hs w)) :
    Intact (c.handleWrite hs w, sent) := by
  rw [Conn.handleWrite, if_neg h.not_handshaking]
  split_ifs with hw
  · have hstream : (c.flush w).accepted ++ (c.flush w).outputBuffer = sent := by
      rw [accepted_flush, outputBuffer_flush, List.append_assoc, List.take_append_drop]
      exact h.stream
    cases hssl : c.ssl with
    | true =>
      have hf := flush_frame (directReaction_ssl hssl hb)
      refine h.of_frame hf (fun hplain => ?_) hstream
      rw [hf.ssl, hssl] at hplain
      exact absurd hplain Bool.false_ne_true.symm
    | false =>
      have hne : c.outputBuffer ≠ [] := h.isWriting hssl hw
      have hreact := directReaction_wouldBlock hssl hne hb (hcut hssl hw)
      have hf := flush_frame (ne_close_of_waits hreact)
      refine h.of_frame hf (fun _ hw' hnil => ?_) hstream
      have hle : (c.written c.outputBuffer.length w).1 ≤ c.outputBuffer.length := by
        rw [written_plain hssl]
        exact writeFull_le
      rw [outputBuffer_flush, List.drop_eq_nil_iff] at hnil
      have hall := hle.antisymm hnil
      rw [if_pos hall] at hreact
      rw [flush_isWriting (by rw [hreact]) hall hne] at hw'
      exact Bool.false_ne_true hw'
  · exact h

theorem step {s s' : Conn × Bytes} (h : Intact s) (hok : Behaved s a ∧ Uncut s a)
    (hstep : sendStep s a = some s') : Intact s' := by
  obtain ⟨c, sent⟩ := s
  cases a with
  | sendInLoop data w =>
    cases hstep
    exact h.sendInLoop hok.1 hok.2
  | handleWrite hs w =>
    cases hstep
    exact h.handleWrite hok.1 hok.2
  | _ => cases hstep

end Intact

/-- Whatever the transport accepts of each write, if it is not cut where that matters, the bytes
accepted and those that wait are the bytes sent, behind every sequence of sends and writes. -/
theorem stream_of_run {c₀ : Conn} {as : List Action} (h₀ : c₀.Ready)
    (hb : Meets sendStep Behaved (c₀, []) as) (hcut : Meets sendStep Uncut (c₀, []) as)
    (hrun : run sendStep (c₀, []) as = some (c, sent)) : c.accepted ++ c.outputBuffer = sent :=
  (run_invariant Intact.step h₀.intact (hb.and hcut) hrun).stream

/-- Of a first message nothing is taken at once and one byte by `handleWrite`; the rest leaves
with a second message. -/
def blockedSends : List Action :=
  [.sendInLoop [1, 2] ⟨[], .failed, 0, EAGAIN, 0⟩, .handleWrite .done ⟨[0], .failed, 0, EAGAIN, 0⟩,
    .sendInLoop [3] ⟨[], .failed, 0, EAGAIN, 0⟩, .handleWrite .done ⟨[4], .failed, 0, 0, 0⟩]

theorem stream_of_run_blockedSends : ∃ c,
    run sendStep ((create false true true false 67108864 0).established, []) blockedSends =
      some (c, [1, 2, 3]) ∧ c.accepted ++ c.outputBuffer = [1, 2, 3] := by
  have hready : (create false true true false 67108864 0).established.Ready :=
    ⟨rfl, ⟨rfl, rfl⟩, rfl, fun _ => rfl, rfl⟩
  have hrun : ∃ c, run sendStep ((create false true true false 67108864 0).established, [])
      blockedSends = some (c, [1, 2, 3]) := ⟨_, rfl⟩
  obtain ⟨c, hrun⟩ := hrun
  exact ⟨c, hrun, stream_of_run hready (by decide) (by decide) hrun⟩

/-- Of a message of two bytes the first is taken at once. `sendInLoop` keeps one byte for later,
but again the first. -/
theorem stream_cut : ∃ c,
    (create false true true false 67108864 0).established.Ready ∧
    Meets sendStep Behaved ((create false true true false 67108864 0).established, [])
      [.sendInLoop [1, 2] ⟨[0], .failed, 0, EAGAIN, 0⟩] ∧
    run sendStep ((create false true true false 67108864 0).established, [])
      [.sendInLoop [1, 2] ⟨[0], .failed, 0, EAGAIN, 0⟩] = some (c, [1, 2]) ∧
    c.accepted ++ c.outputBuffer ≠ [1, 2] :=
  ⟨_, ⟨rfl, ⟨rfl, rfl⟩, rfl, fun _ => rfl, rfl⟩, by decide, rfl, by decide⟩

end Conn

end LibWebsocket.Tcp
