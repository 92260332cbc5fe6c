import LibWebsocket.Tcp.Frame

/-! A connection is closed once. `handleClose` is called in the middle of functions that go on
behind it, so this holds of the runs in which what follows a close finds nothing to do. -/
namespace LibWebsocket.Tcp
open Lib

def Event.ofClose : Event → Bool
  | .handleClose _ _ | .closeCallback => true
  | _ => false

namespace Conn
variable {c c' : Conn} {data : Bytes} {w : Writes} {errno : ℕ}

def closeLog (c : Conn) : List Event := c.trace.filter Event.ofClose

/-- `handleClose` is entered in `kConnected` or `kDisconnecting` only and `closeCallback_` called
at most once; once closed, the channel has no events and the output buffer stays as it was. -/
structure ClosedOnce (c : Conn) : Prop where
  entered : ∀ s b, .handleClose s b ∈ c.trace → s = .kConnected ∨ s = .kDisconnecting
  closeCallback : c.trace.count .closeCallback ≤ 1
  silent : ∀ s b, .handleClose s b ∈ c.trace → c.channel = .none ∧ c.outputBuffer = b

/-! ## The condition -/

/-- If the results of a direct write make `sendInLoop` close, all the data was taken, or without
SSL the callbacks of the close leave `EPIPE` or `ECONNRESET` in `errno`. -/
def SendOk (c : Conn) (data : Bytes) (w : Writes) : Prop :=
  c.state ≠ .kDisconnected → c.Direct → (c.directReaction data w).1 = .close →
    (c.written data.length w).1 = data.length ∨
      c.ssl = false ∧ w.afterClose ∈ [EPIPE, ECONNRESET]

def CallOk (c : Conn) : Call → Prop
  | .send message w => c.state = .kConnected → c.SendOk message w
  | .startRead => c.state ≠ .kDisconnected
  | _ => True

def CallsOk (c : Conn) (ks : List Call) : Prop := Meets (fun c k => some (call c k)) CallOk c ks

/-- A handshake that a closed connection is asked for has no consequence. -/
def HandshakeOk (c : Conn) (h : Handshake) : Prop :=
  c.state = .kDisconnected → handshakeReaction (sslHandshake c.ssl h).2.2 = .ignore

/-- The direct writes are as above, and where a handler comes to its switches on a connection that
is closed, by the message callback or before, these have nothing to do. -/
def ActionOk (c : Conn) : Action → Prop
  | .connectEstablished ks => c.established.CallsOk ks
  | .handleRead h r ks =>
    if c.Handshaking then c.HandshakeOk h
    else (r.data ≠ [] → (c.received r).CallsOk ks) ∧
      ((c.readMessage r ks).state = .kDisconnected →
        ((c.readMessage r ks).readReaction (c.savedErrno r)).1 ∈ [.ignore, .rearm])
  | .handleWrite h _ => c.Handshaking → c.HandshakeOk h
  | .handleClose _ => c.state ≠ .kDisconnected
  | .sendInLoop data w => c.SendOk data w
  | .forceCloseInLoop _ => True
  | .user k => c.CallOk k

instance : Decidable (c.SendOk data w) := inferInstanceAs (Decidable (_ → _))

instance : ∀ {k : Call}, Decidable (c.CallOk k)
  | .send _ _ => inferInstanceAs (Decidable (_ → _))
  | .startRead => inferInstanceAs (Decidable (_ ≠ _))
  | .shutdown | .forceClose | .stopRead | .retrieve _ | .setErrno _ => .isTrue trivial

instance {ks : List Call} : Decidable (c.CallsOk ks) := inferInstanceAs (Decidable (Meets _ _ _ _))

instance {h : Handshake} : Decidable (c.HandshakeOk h) := inferInstanceAs (Decidable (_ → _))

instance : ∀ {a : Action}, Decidable (c.ActionOk a)
  | .connectEstablished _ => inferInstanceAs (Decidable (CallsOk _ _))
  | .handleRead h _ _ =>
    inferInstanceAs (Decidable (if c.Handshaking then c.HandshakeOk h
      else (_ → CallsOk _ _) ∧ (_ = StateE.kDisconnected → _ ∈ [Reaction.ignore, .rearm])))
  | .handleWrite _ _ => inferInstanceAs (Decidable (_ → _))
  | .handleClose _ => inferInstanceAs (Decidable (_ ≠ _))
  | .sendInLoop _ _ => inferInstanceAs (Decidable (SendOk _ _ _))
  | .forceCloseInLoop _ => .isTrue trivial
  | .user _ => inferInstanceAs (Decidable (CallOk _ _))

/-! ## Open and closed connections -/

structure Open (c : Conn) : Prop where
  state : c.state = .kConnected ∨ c.state = .kDisconnecting
  closeLog : c.closeLog = []

structure Closed (c : Conn) : Prop where
  state : c.state = .kDisconnected
  channel : c.channel = .none
  closeLog : ∃ s, (s = .kConnected ∨ s = .kDisconnecting) ∧
    c.closeLog = [.handleClose s c.outputBuffer, .closeCallback]

def Settled (c : Conn) : Prop := c.Open ∨ c.Closed

/-- Events that are none of a close. -/
abbrev Apart (e : Event) : Prop := e.ofClose = false

theorem closeLog_frame (h : Frame Apart c c') : c'.closeLog = c.closeLog := by
  obtain ⟨es, he, hes⟩ := h.trace
  have hnil : es.filter Event.ofClose = [] :=
    List.filter_eq_nil_iff.mpr fun e hmem => by simp [hes e hmem]
  rw [closeLog, he, List.filter_append, hnil, List.append_nil, closeLog]

theorem transmit_apart : Frame Apart c (c.transmit data w) :=
  transmit_frame (fun _ _ => rfl) fun _ _ => rfl

theorem directWrite_apart : ∃ c₁, Frame Apart c c₁ ∧ c.directWrite data w =
    if (c.directReaction data w).1 = .close then c₁.handleClose w.afterClose else c₁ :=
  directWrite_frame (fun _ => rfl) transmit_apart

/-- Behind a close that meets the condition `sendInLoop` has nothing to append. -/
theorem leftover_eq_nil (hclose : (c.directReaction data w).1 = .close)
    (h : (c.written data.length w).1 = data.length ∨
      c.ssl = false ∧ w.afterClose ∈ [EPIPE, ECONNRESET]) : c.leftover data w = [] := by
  dsimp only [leftover]
  rcases h with hall | ⟨hssl, herrno⟩
  · rw [hall, List.drop_length, Nat.sub_self, List.take_zero, ite_self, ite_self]
  · have hset : (c.directWrite data w).errno = w.afterClose := by
      dsimp only [directWrite]
      rw [if_pos hclose, handleClose]
    rw [hssl, if_neg Bool.false_ne_true, hset, if_pos herrno]

namespace Open

theorem state_ne (h : c.Open) : c.state ≠ .kDisconnected := by
  rcases h.state with hs | hs <;> simp [hs]

theorem frame (h : c.Open) (hf : Frame Apart c c') : c'.Open :=
  ⟨hf.state ▸ h.state, (closeLog_frame hf).trans h.closeLog⟩

theorem handleClose (h : c.Open) : (c.handleClose errno).Closed where
  state := rfl
  channel := rfl
  closeLog := by
    refine ⟨c.state, h.state, ?_⟩
    have hlog : c.trace.filter Event.ofClose = [] := h.closeLog
    rw [Conn.closeLog, Conn.handleClose, List.filter_append, hlog]
    rfl

theorem ends (h : c.Open) (he : Ends Apart c c') : c'.Settled := by
  rcases he with hf | ⟨c₁, errno, hf, rfl⟩
  · exact Or.inl (h.frame hf)
  · exact Or.inr (h.frame hf).handleClose

theorem sendInLoop (h : c.Open) (hok : c.SendOk data w) : (c.sendInLoop data w).Settled := by
  rw [Conn.sendInLoop, if_neg h.state_ne]
  split_ifs with hd
  · obtain ⟨c₁, hf, he⟩ := directWrite_apart (c := c)
    rw [he]
    split_ifs with hr
    · rw [leftover_eq_nil hr (hok h.state_ne hd hr), appendOutput, if_pos rfl]
      exact Or.inr (h.frame hf).handleClose
    · exact Or.inl ((h.frame hf).frame (appendOutput_frame fun _ => rfl))
  · exact Or.inl (h.frame (appendOutput_frame fun _ => rfl))

theorem call (h : c.Open) {k : Call} (hok : c.CallOk k) : (c.call k).Settled := by
  cases k with
  | send message w =>
    dsimp only [Conn.call]
    split_ifs with hs
    · exact h.sendInLoop (hok hs)
    · exact Or.inl h
  | shutdown =>
    dsimp only [Conn.call]
    split_ifs
    · have hd : Open { c with state := .kDisconnecting } := ⟨Or.inr rfl, h.closeLog⟩
      exact Or.inl (hd.frame (shutdownInLoop_frame fun _ => rfl))
    · exact Or.inl h
  | forceClose =>
    dsimp only [Conn.call]
    split_ifs
    · have hd : Open { c with state := .kDisconnecting } := ⟨Or.inr rfl, h.closeLog⟩
      exact Or.inl (hd.frame (.log rfl))
    · exact Or.inl h
  | startRead => exact Or.inl (h.frame startReadInLoop_frame)
  | stopRead => exact Or.inl (h.frame stopReadInLoop_frame)
  | retrieve n => exact Or.inl ⟨h.state, h.closeLog⟩
  | setErrno errno => exact Or.inl (h.frame .setErrno)

end Open

namespace Closed

theorem stopReadInLoop (h : c.Closed) : c.stopReadInLoop.Closed := by
  unfold Conn.stopReadInLoop
  split_ifs
  · refine ⟨h.state, ?_, h.closeLog⟩
    simp [h.channel, Channel.disableReading, Channel.none]
  · exact h

theorem call (h : c.Closed) {k : Call} (hok : c.CallOk k) : (c.call k).Closed := by
  cases k with
  | send message w => simpa [Conn.call, h.state] using h
  | shutdown => simpa [Conn.call, h.state] using h
  | forceClose => simpa [Conn.call, h.state] using h
  | startRead => exact absurd h.state hok
  | stopRead => exact h.stopReadInLoop
  | retrieve n => exact ⟨h.state, h.channel, h.closeLog⟩
  | setErrno errno => exact ⟨h.state, h.channel, h.closeLog⟩

/-- Nothing is armed again, since no other event is left on the channel. -/
theorem react (h : c.Closed) {r : Reaction} (hr : r ∈ [Reaction.ignore, .rearm]) :
    (c.react errno r).Closed := by
  simp only [List.mem_cons, List.not_mem_nil, or_false] at hr
  rcases hr with rfl | rfl
  · exact h
  · have hleft : c.channel.isETReading = (false, .none) := by rw [h.channel]; rfl
    dsimp only [Conn.react]
    rw [hleft, if_neg Bool.false_ne_true]
    exact ⟨h.state, rfl, h.closeLog⟩

end Closed

/-! ## The handlers -/

namespace Settled

theorem sendInLoop (h : c.Settled) (hok : c.SendOk data w) : (c.sendInLoop data w).Settled := by
  rcases h with h | h
  · exact h.sendInLoop hok
  · rw [Conn.sendInLoop, if_pos h.state]
    exact Or.inr h

theorem call (h : c.Settled) {k : Call} (hok : c.CallOk k) : (c.call k).Settled := by
  rcases h with h | h
  · exact h.call hok
  · exact Or.inr (h.call hok)

theorem calls (h : c.Settled) {ks : List Call} (hok : c.CallsOk ks) : (c.calls ks).Settled :=
  foldl_invariant (fun hs hk => hs.call hk) h hok

theorem handshake (h : c.Settled) {hs : Handshake} (hok : c.HandshakeOk hs) :
    (c.handshake hs errno).Settled := by
  rcases h with h | h
  · have ho : Open { c with
        sslConnected := (sslHandshake c.ssl hs).1, ssl := (sslHandshake c.ssl hs).2.1 } :=
      ⟨h.state, h.closeLog⟩
    exact ho.ends react_ends
  · have hc : Closed { c with
        sslConnected := (sslHandshake c.ssl hs).1, ssl := (sslHandshake c.ssl hs).2.1 } :=
      ⟨h.state, h.channel, h.closeLog⟩
    exact Or.inr (hc.react (by simp [hok h.state]))

theorem received (h : c.Settled) {r : Reads} : (c.received r).Settled := by
  rcases h with h | h
  · exact Or.inl (h.frame received_frame)
  · exact Or.inr ⟨h.state, h.channel, h.closeLog⟩

theorem handleRead (h : c.Settled) {hs : Handshake} {r : Reads} {ks : List Call}
    (hok : c.ActionOk (.handleRead hs r ks)) : (c.handleRead hs r ks).Settled := by
  dsimp only [ActionOk] at hok
  dsimp only [Conn.handleRead]
  split_ifs at hok ⊢ with hh
  · exact h.handshake hok
  · have hread : (c.readMessage r ks).Settled := by
      unfold readMessage
      split_ifs with hd
      · exact h.received
      · exact h.received.calls (hok.1 hd)
    rcases hread with ho | hc
    · exact (ho.frame .setErrno).ends react_ends
    · have hset : Closed ((c.readMessage r ks).setErrno
          ((c.readMessage r ks).readReaction (c.savedErrno r)).2) :=
        ⟨hc.state, hc.channel, hc.closeLog⟩
      exact Or.inr (hset.react (hok.2 hc.state))

theorem handleWrite (h : c.Settled) {hs : Handshake} (hok : c.Handshaking → c.HandshakeOk hs) :
    (c.handleWrite hs w).Settled := by
  unfold Conn.handleWrite
  split_ifs with hh hw
  · exact h.handshake (hok hh)
  · rcases h with h | h
    · exact h.ends (flush_ends (fun _ => rfl) rfl transmit_apart)
    · simp [h.channel, Channel.none] at hw
  · exact h

theorem perform (h : c.Settled) {a : Action} (hne : ∀ ks, a ≠ .connectEstablished ks)
    (hok : c.ActionOk a) : (c.perform a).Settled := by
  cases a with
  | connectEstablished ks => exact absurd rfl (hne ks)
  | handleRead hs r ks => exact h.handleRead hok
  | handleWrite hs w => exact h.handleWrite hok
  | handleClose errno => exact Or.inr (h.resolve_right fun hc => hok hc.state).handleClose
  | sendInLoop data w => exact h.sendInLoop hok
  | forceCloseInLoop errno =>
    dsimp only [Conn.perform, Conn.forceCloseInLoop]
    split_ifs with hs
    · have ho : c.Open := h.resolve_right fun hc => by simp [hc.state] at hs
      exact Or.inr ho.handleClose
    · exact h
  | user k => exact h.call hok

theorem state_ne (h : c.Settled) : c.state ≠ .kConnecting := by
  rcases h with h | h
  · rcases h.state with hs | hs <;> simp [hs]
  · simp [h.state]

end Settled

/-! ## Runs -/

theorem mem_closeLog {e : Event} (he : e.ofClose = true) : e ∈ c.closeLog ↔ e ∈ c.trace := by
  rw [closeLog, List.mem_filter, and_iff_left he]

theorem count_closeLog : c.closeLog.count .closeCallback = c.trace.count .closeCallback :=
  List.count_filter rfl

theorem closedOnce_of_closeLog_eq_nil (h : c.closeLog = []) : c.ClosedOnce := by
  have hnot : ∀ {s b}, .handleClose s b ∉ c.trace := by
    intro s b he
    simpa [h] using (mem_closeLog rfl).mpr he
  exact ⟨fun s b he => absurd he hnot, by simp [← count_closeLog, h], fun s b he => absurd he hnot⟩

theorem Closed.closedOnce (h : c.Closed) : c.ClosedOnce := by
  obtain ⟨s₀, hs₀, hlog⟩ := h.closeLog
  have honly : ∀ {s b}, .handleClose s b ∈ c.trace → s = s₀ ∧ b = c.outputBuffer := by
    intro s b he
    simpa [hlog] using (mem_closeLog rfl).mpr he
  refine ⟨fun s b he => (honly he).1 ▸ hs₀, ?_, fun s b he => ⟨h.channel, (honly he).2.symm⟩⟩
  simp [← count_closeLog, hlog]

/-- The connection is being set up, or open, or closed. -/
def Tidy (c : Conn) : Prop := c.state = .kConnecting ∧ c.closeLog = [] ∨ c.Settled

theorem Tidy.closedOnce (h : c.Tidy) : c.ClosedOnce := by
  rcases h with h | h | h
  · exact closedOnce_of_closeLog_eq_nil h.2
  · exact closedOnce_of_closeLog_eq_nil h.closeLog
  · exact h.closedOnce

theorem Tidy.step {a : Action} (h : c.Tidy) (hok : c.ActionOk a) (hstep : c.step a = some c') :
    c'.Tidy := by
  apply Or.inr
  rcases step_eq_some hstep with ⟨hstate, ks, rfl, rfl⟩ | ⟨hstate, hne, rfl⟩
  · have hlog : c.closeLog = [] := (h.resolve_right fun hs => hs.state_ne hstate).2
    have hconn : Open (enableReading { c with state := .kConnected }) := ⟨Or.inl rfl, hlog⟩
    exact Settled.calls (Or.inl (hconn.frame (.log rfl))) hok
  · exact (h.resolve_left fun hs => hstate hs.1).perform hne hok

/-- In every run whose steps all meet the condition, the connection is closed once. -/
theorem closedOnce_of_run {sslCtx enableEt complete high : Bool} {mark errno : ℕ}
    {as : List Action} (hok : Meets step ActionOk (create sslCtx enableEt complete high mark errno) as)
    (hrun : run step (create sslCtx enableEt complete high mark errno) as = some c) :
    c.ClosedOnce := by
  have hinit : (create sslCtx enableEt complete high mark errno).Tidy := Or.inl ⟨rfl, rfl⟩
  exact (run_invariant Tidy.step hinit hok hrun).closedOnce

/-- A peer that sends one byte, gets one back and goes away. -/
def echo : List Action :=
  [.connectEstablished [],
    .handleRead .done ⟨[1], .zero, 0, 0, 0⟩ [.send [1] ⟨[0], .failed, 0, 0, 0⟩]]

theorem closedOnce_of_run_echo : ∃ c, run step (create false true true false 67108864 0) echo = some c ∧
    c.state = .kDisconnected ∧ c.ClosedOnce := by
  have hrun : ∃ c, run step (create false true true false 67108864 0) echo = some c ∧
      c.state = .kDisconnected := ⟨_, rfl, rfl⟩
  obtain ⟨c, hrun, hstate⟩ := hrun
  exact ⟨c, hrun, hstate, closedOnce_of_run (by decide) hrun⟩

/-- The answer to a message fails with `EPIPE`. `sendInLoop` closes, and `handleRead` then takes
the `EPIPE` for a result of its own read and closes again, in `kDisconnected`. -/
theorem not_closedOnce_epipe : ∃ c,
    run step (create false true true false 67108864 0)
      [.connectEstablished [],
        .handleRead .done ⟨[1], .failed, 0, EAGAIN, 0⟩ [.send [1] ⟨[], .failed, 0, EPIPE, EPIPE⟩]]
        = some c ∧ ¬ c.ClosedOnce := by
  refine ⟨_, rfl, fun h => ?_⟩
  have htwice := h.closeCallback
  revert htwice
  decide

end Conn

end LibWebsocket.Tcp
