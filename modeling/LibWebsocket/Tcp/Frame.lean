import LibWebsocket.Tcp.Connection

/-! What the pieces of the handlers leave alone. All but `handleClose` and the handshake keep the
state and the SSL session, and extend the trace by events of a known kind. -/
namespace LibWebsocket.Tcp
open Lib

/-- `c'` has the state and the session of `c`; what was done in between are events of `P`. -/
structure Frame (P : Event → Prop) (c c' : Conn) : Prop where
  state : c'.state = c.state
  sslCtx : c'.sslCtx = c.sslCtx
  ssl : c'.ssl = c.ssl
  sslConnected : c'.sslConnected = c.sslConnected
  trace : ∃ es, c'.trace = c.trace ++ es ∧ ∀ e ∈ es, P e

/-- A frame that may end in a close. -/
def Ends (P : Event → Prop) (c c' : Conn) : Prop :=
  Frame P c c' ∨ ∃ c₁ errno, Frame P c c₁ ∧ c' = c₁.handleClose errno

namespace Frame
variable {P : Event → Prop} {c c' c'' : Conn}

theorem quiet (hstate : c'.state = c.state) (hctx : c'.sslCtx = c.sslCtx) (hssl : c'.ssl = c.ssl)
    (hconn : c'.sslConnected = c.sslConnected) (htrace : c'.trace = c.trace) : Frame P c c' :=
  ⟨hstate, hctx, hssl, hconn, [], by rw [htrace, List.append_nil], by simp⟩

theorem refl : Frame P c c := quiet rfl rfl rfl rfl rfl

theorem trans (h : Frame P c c') (h' : Frame P c' c'') : Frame P c c'' := by
  obtain ⟨es, he, hes⟩ := h.trace
  obtain ⟨es', he', hes'⟩ := h'.trace
  refine ⟨h'.state.trans h.state, h'.sslCtx.trans h.sslCtx, h'.ssl.trans h.ssl,
    h'.sslConnected.trans h.sslConnected, es ++ es', ?_, ?_⟩
  · rw [he', he, List.append_assoc]
  · intro e hmem
    exact (List.mem_append.mp hmem).elim (hes e) (hes' e)

theorem log {e : Event} (he : P e) : Frame P c (c.log e) :=
  ⟨rfl, rfl, rfl, rfl, [e], rfl, by simpa using he⟩

theorem setErrno {errno : ℕ} : Frame P c (c.setErrno errno) := quiet rfl rfl rfl rfl rfl

theorem forall_trace (h : Frame P c c') (hc : ∀ e ∈ c.trace, P e) : ∀ e ∈ c'.trace, P e := by
  obtain ⟨es, he, hes⟩ := h.trace
  intro e hmem
  rw [he] at hmem
  exact (List.mem_append.mp hmem).elim (hc e) (hes e)

theorem ends (h : Frame P c c') (h' : Ends P c' c'') : Ends P c c'' := by
  rcases h' with h' | ⟨c₁, errno, h', rfl⟩
  · exact Or.inl (h.trans h')
  · exact Or.inr ⟨c₁, errno, h.trans h', rfl⟩

end Frame

/-! ## Pieces that leave the channel alone -/

/-- Nothing has changed that decides about the interest of the channel. -/
structure Calm (c c' : Conn) : Prop where
  state : c'.state = c.state
  channel : c'.channel = c.channel
  outputBuffer : c'.outputBuffer = c.outputBuffer
  enableEt : c'.enableEt = c.enableEt

theorem Calm.trans {c c' c'' : Conn} (h : Calm c c') (h' : Calm c' c'') : Calm c c'' :=
  ⟨h'.state.trans h.state, h'.channel.trans h.channel, h'.outputBuffer.trans h.outputBuffer,
    h'.enableEt.trans h.enableEt⟩

namespace Conn
variable {c : Conn} {data : Bytes} {w : Writes} {errno n : ℕ} {e : Event}

theorem refl_calm : Calm c c := ⟨rfl, rfl, rfl, rfl⟩

theorem log_calm : Calm c (c.log e) := ⟨rfl, rfl, rfl, rfl⟩

theorem setErrno_calm : Calm c (c.setErrno errno) := ⟨rfl, rfl, rfl, rfl⟩

theorem received_calm {r : Reads} : Calm c (c.received r) := ⟨rfl, rfl, rfl, rfl⟩

theorem transmit_calm : Calm c (c.transmit data w) := by
  unfold transmit
  split_ifs
  · exact refl_calm
  all_goals exact log_calm.trans setErrno_calm

theorem queueWriteComplete_calm : Calm c c.queueWriteComplete := by
  unfold queueWriteComplete
  split_ifs
  · exact log_calm
  · exact refl_calm

theorem checkHighWaterMark_calm : Calm c (c.checkHighWaterMark n) := by
  dsimp only [checkHighWaterMark]
  split_ifs
  · exact log_calm
  · exact refl_calm

theorem directWritten_calm : Calm c (c.directWritten data w) := by
  dsimp only [directWritten]
  split_ifs
  · exact transmit_calm.trans queueWriteComplete_calm
  · exact transmit_calm

theorem shutdownInLoop_calm : Calm c c.shutdownInLoop := by
  unfold shutdownInLoop
  split_ifs
  · exact refl_calm
  · exact log_calm

theorem outputSent_calm : Calm c.disableWriting c.outputSent := by
  dsimp only [outputSent]
  split_ifs
  · exact queueWriteComplete_calm.trans shutdownInLoop_calm
  · exact queueWriteComplete_calm

/-- Write interest is given up with the last byte. -/
theorem retrieveOutput_calm : Calm
    { c with
      outputBuffer := c.outputBuffer.drop n
      channel := if n = 0 ∨ c.outputBuffer.drop n ≠ [] then c.channel
        else c.channel.disableWriting c.enableEt }
    (c.retrieveOutput n) := by
  dsimp only [retrieveOutput]
  split_ifs
  · exact refl_calm
  · exact outputSent_calm (c := { c with outputBuffer := c.outputBuffer.drop n })

end Conn

/-! ## Frames of the pieces -/

namespace Conn
variable {P : Event → Prop} {c : Conn} {data : Bytes} {w : Writes} {errno n : ℕ}

theorem react_frame {r : Reaction} (hr : r ≠ .close) : Frame P c (c.react errno r) := by
  cases r with
  | ignore => exact .refl
  | wantRead | wantWrite => exact .quiet rfl rfl rfl rfl rfl
  | rearm =>
    dsimp only [react]
    split_ifs <;> exact .quiet rfl rfl rfl rfl rfl
  | close => exact absurd rfl hr

theorem react_ends {r : Reaction} : Ends P c (c.react errno r) := by
  by_cases hr : r = .close
  · exact Or.inr ⟨c, errno, .refl, by rw [hr, react]⟩
  · exact Or.inl (react_frame hr)

theorem startReadInLoop_frame : Frame P c c.startReadInLoop := by
  unfold startReadInLoop
  split_ifs
  · exact .quiet rfl rfl rfl rfl rfl
  · exact .refl

theorem stopReadInLoop_frame : Frame P c c.stopReadInLoop := by
  unfold stopReadInLoop
  split_ifs
  · exact .quiet rfl rfl rfl rfl rfl
  · exact .refl

theorem received_frame {r : Reads} : Frame P c (c.received r) := .quiet rfl rfl rfl rfl rfl

theorem transmit_frame
    (hwrite : data ≠ [] → c.ssl = false → P (.write data (c.written data.length w).1))
    (hssl : data ≠ [] → c.ssl = true →
      P (.sslWrite c.sslConnected data (c.written data.length w).1)) :
    Frame P c (c.transmit data w) := by
  unfold transmit
  split_ifs with hd hs
  · exact .refl
  · exact (Frame.log (hssl hd hs)).trans .setErrno
  · exact (Frame.log (hwrite hd (by simpa using hs))).trans .setErrno

section Queued
variable (hqueued : ∀ f, P (.queued f))
include hqueued

theorem queueWriteComplete_frame : Frame P c c.queueWriteComplete := by
  unfold queueWriteComplete
  split_ifs
  · exact .log (hqueued _)
  · exact .refl

theorem checkHighWaterMark_frame : Frame P c (c.checkHighWaterMark n) := by
  dsimp only [checkHighWaterMark]
  split_ifs
  · exact .log (hqueued _)
  · exact .refl

theorem appendOutput_frame {bytes : Bytes} : Frame P c (c.appendOutput bytes) := by
  unfold appendOutput
  split_ifs
  · exact .refl
  all_goals exact (checkHighWaterMark_frame hqueued).trans (.quiet rfl rfl rfl rfl rfl)

theorem directWritten_frame (ht : Frame P c (c.transmit data w)) :
    Frame P c (c.directWritten data w) := by
  dsimp only [directWritten]
  split_ifs
  · exact ht.trans (queueWriteComplete_frame hqueued)
  · exact ht

/-- A direct write keeps the frame, unless its results make it close. -/
theorem directWrite_frame (ht : Frame P c (c.transmit data w)) :
    ∃ c₁, Frame P c c₁ ∧ c.directWrite data w =
      if (c.directReaction data w).1 = .close then c₁.handleClose w.afterClose else c₁ := by
  have hf := directWritten_frame hqueued ht
  dsimp only [directWrite]
  split_ifs
  · exact ⟨_, hf, rfl⟩
  · exact ⟨_, hf.trans .setErrno, rfl⟩

omit hqueued in
theorem shutdownInLoop_frame
    (hshutdown : c.channel.isWriting = false → P (.shutdownWrite c.outputBuffer)) :
    Frame P c c.shutdownInLoop := by
  unfold shutdownInLoop
  split_ifs with hw
  · exact .refl
  · exact .log (hshutdown (by simpa using hw))

theorem outputSent_frame (hshutdown : P (.shutdownWrite c.outputBuffer)) :
    Frame P c c.outputSent := by
  have hdisable : Frame P c c.disableWriting := .quiet rfl rfl rfl rfl rfl
  have hsent := hdisable.trans (queueWriteComplete_frame hqueued)
  dsimp only [outputSent]
  split_ifs
  · refine hsent.trans (shutdownInLoop_frame fun _ => ?_)
    rw [queueWriteComplete_calm.outputBuffer]
    exact hshutdown
  · exact hsent

/-- The half-close of `handleWrite` comes with an output buffer that is empty. -/
theorem retrieveOutput_frame (hshutdown : P (.shutdownWrite [])) :
    Frame P c (c.retrieveOutput n) := by
  have hdrop : Frame P c { c with outputBuffer := c.outputBuffer.drop n } :=
    .quiet rfl rfl rfl rfl rfl
  dsimp only [retrieveOutput]
  split_ifs with hleft
  · exact hdrop
  · have hnil : c.outputBuffer.drop n = [] := by simpa using (not_or.mp hleft).2
    exact hdrop.trans (outputSent_frame hqueued (by rwa [← hnil] at hshutdown))

theorem flush_ends (hshutdown : P (.shutdownWrite []))
    (ht : Frame P c (c.transmit c.outputBuffer w)) : Ends P c (c.flush w) := by
  apply Frame.ends _ react_ends
  apply (ht.trans _).trans .setErrno
  exact retrieveOutput_frame hqueued hshutdown

end Queued

end Conn

/-! ## Relations across the handlers -/

theorem handshakeReaction_ne_rearm {e : ℤ} : handshakeReaction e ≠ .rearm := by
  unfold handshakeReaction
  split_ifs <;> exact Reaction.noConfusion

/-- A relation that composes and holds across each piece but `rearm`. -/
structure Pieces (R : Conn → Conn → Prop) : Prop where
  refl : ∀ {c}, R c c
  trans : ∀ {c c' c''}, R c c' → R c' c'' → R c c''
  setErrno : ∀ {c errno}, R c (c.setErrno errno)
  received : ∀ {c r}, R c (c.received r)
  session : ∀ {c sslConnected ssl}, R c { c with sslConnected := sslConnected, ssl := ssl }
  directWritten : ∀ {c data w}, R c (c.directWritten data w)
  appendOutput : ∀ {c data}, R c (c.appendOutput data)
  react : ∀ {c errno r}, r ≠ .rearm → R c (c.react errno r)

namespace Pieces
variable {R : Conn → Conn → Prop} {c : Conn} {data : Bytes} {w : Writes} {errno : ℕ}
  {ks : List Call}

theorem handleClose (h : Pieces R) : R c (c.handleClose errno) :=
  h.react (r := .close) Reaction.noConfusion

theorem sendInLoop (h : Pieces R) : R c (c.sendInLoop data w) := by
  have hdirect : R c (c.directWrite data w) := by
    dsimp only [Conn.directWrite]
    split_ifs
    · exact h.trans h.directWritten h.handleClose
    · exact h.trans h.directWritten h.setErrno
  unfold Conn.sendInLoop
  split_ifs
  · exact h.refl
  · exact h.trans hdirect h.appendOutput
  · exact h.appendOutput

theorem forceCloseInLoop (h : Pieces R) : R c (c.forceCloseInLoop errno) := by
  unfold Conn.forceCloseInLoop
  split_ifs
  · exact h.handleClose
  · exact h.refl

theorem calls (h : Pieces R) (hks : ∀ k ∈ ks, ∀ c, R c (c.call k)) : R c (c.calls ks) := by
  induction ks generalizing c with
  | nil => exact h.refl
  | cons k ks ih =>
    obtain ⟨hk, hks⟩ := List.forall_mem_cons.mp hks
    exact h.trans (hk c) (ih hks)

theorem handshake (h : Pieces R) {hs : Handshake} : R c (c.handshake hs errno) :=
  h.trans h.session (h.react handshakeReaction_ne_rearm)

theorem readMessage (h : Pieces R) {r : Reads} (hks : ∀ k ∈ ks, ∀ c, R c (c.call k)) :
    R c (c.readMessage r ks) := by
  unfold Conn.readMessage
  split_ifs
  · exact h.received
  · exact h.trans h.received (h.calls hks)

end Pieces

end LibWebsocket.Tcp
