import LibWebsocket.Tcp.Frame

/-! What a TLS connection hands to `write(2)`. The writers look at `ssl_`, which the first
handshake makes and `handleClose` frees, so bytes stay inside TLS in the runs that write only
between the two. -/
namespace LibWebsocket.Tcp
open Lib

/-- Nothing goes out past the SSL session, or through one that is not established. -/
def Event.Protected : Event → Prop
  | .write _ _ => False
  | .sslWrite sslConnected _ _ => sslConnected = true
  | _ => True

namespace Conn
variable {c c' : Conn} {data : Bytes} {w : Writes} {errno : ℕ}

def Confidential (c : Conn) : Prop := ∀ e ∈ c.trace, e.Protected

/-! ## The condition -/

/-- Data is not to be written at once before the handshake has succeeded. -/
def SendSecure (c : Conn) (data : Bytes) : Prop :=
  c.state ≠ .kDisconnected → c.Direct → data ≠ [] → c.sslConnected = true

def CallSecure (c : Conn) : Call → Prop
  | .send message _ => c.state = .kConnected → c.SendSecure message
  | _ => True

def CallsSecure (c : Conn) (ks : List Call) : Prop :=
  Meets (fun c k => some (call c k)) CallSecure c ks

/-- All sends are as above, and `handleWrite` is not called on a closed connection that has been
given write interest again. -/
def ActionSecure (c : Conn) : Action → Prop
  | .connectEstablished ks => c.established.CallsSecure ks
  | .handleRead _ r ks => ¬ c.Handshaking → r.data ≠ [] → (c.received r).CallsSecure ks
  | .handleWrite _ _ => c.state = .kDisconnected → c.channel.isWriting = false
  | .handleClose _ | .forceCloseInLoop _ => True
  | .sendInLoop data _ => c.SendSecure data
  | .user k => c.CallSecure k

instance : Decidable (c.SendSecure data) := inferInstanceAs (Decidable (_ → _))

instance : ∀ {k : Call}, Decidable (c.CallSecure k)
  | .send _ _ => inferInstanceAs (Decidable (_ → SendSecure _ _))
  | .shutdown | .forceClose | .startRead | .stopRead | .retrieve _ | .setErrno _ => .isTrue trivial

instance {ks : List Call} : Decidable (c.CallsSecure ks) :=
  inferInstanceAs (Decidable (Meets _ _ _ _))

instance : ∀ {a : Action}, Decidable (c.ActionSecure a)
  | .connectEstablished _ => inferInstanceAs (Decidable (CallsSecure _ _))
  | .handleRead _ _ _ => inferInstanceAs (Decidable (_ → _ → CallsSecure _ _))
  | .handleWrite _ _ => inferInstanceAs (Decidable (_ → _))
  | .handleClose _ | .forceCloseInLoop _ => .isTrue trivial
  | .sendInLoop _ _ => inferInstanceAs (Decidable (SendSecure _ _))
  | .user _ => inferInstanceAs (Decidable (CallSecure _ _))

/-! ## The session -/

/-- While the connection is open, an established session has its SSL object. -/
structure Guarded (c : Conn) : Prop where
  sslCtx : c.sslCtx = true
  session : c.state ≠ .kDisconnected → c.sslConnected = true → c.ssl = true
  confidential : c.Confidential

namespace Guarded

theorem frame (h : c.Guarded) (hf : Frame Event.Protected c c') : c'.Guarded where
  sslCtx := hf.sslCtx.trans h.sslCtx
  session := by
    rw [hf.state, hf.sslConnected, hf.ssl]
    exact h.session
  confidential := hf.forall_trace h.confidential

theorem handleClose (h : c.Guarded) : (c.handleClose errno).Guarded where
  sslCtx := h.sslCtx
  session := fun hs => absurd rfl hs
  confidential := by
    intro e he
    rcases List.mem_append.mp he with he | he
    · exact h.confidential e he
    · simp only [List.mem_cons, List.not_mem_nil, or_false] at he
      rcases he with rfl | rfl | rfl <;> exact trivial

theorem ends (h : c.Guarded) (he : Ends Event.Protected c c') : c'.Guarded := by
  rcases he with hf | ⟨c₁, errno, hf, rfl⟩
  · exact h.frame hf
  · exact (h.frame hf).handleClose

/-- A session that is open and established is written through. -/
theorem transmit (h : c.Guarded) (hopen : data ≠ [] → c.state ≠ .kDisconnected)
    (hconn : data ≠ [] → c.sslConnected = true) : Frame Event.Protected c (c.transmit data w) := by
  apply transmit_frame
  · intro hd hssl
    exact absurd (h.session (hopen hd) (hconn hd)) (by simp [hssl])
  · intro hd _
    exact hconn hd

theorem sendInLoop (h : c.Guarded) (hok : c.SendSecure data) : (c.sendInLoop data w).Guarded := by
  unfold Conn.sendInLoop
  split_ifs with hs hd
  · exact h
  · have ht := h.transmit (w := w) (fun _ => hs) (hok hs hd)
    obtain ⟨c₁, hf, he⟩ := directWrite_frame (fun _ => trivial) ht
    have hdirect : (c.directWrite data w).Guarded := by
      rw [he]
      split_ifs
      · exact (h.frame hf).handleClose
      · exact h.frame hf
    exact hdirect.frame (appendOutput_frame fun _ => trivial)
  · exact h.frame (appendOutput_frame fun _ => trivial)

theorem setState (h : c.Guarded) (hs : c.state ≠ .kDisconnected) {s : StateE} :
    Guarded { c with state := s } :=
  ⟨h.sslCtx, fun _ => h.session hs, h.confidential⟩

theorem call {k : Call} (h : c.Guarded) (hok : c.CallSecure k) : (c.call k).Guarded := by
  cases k with
  | send message w =>
    dsimp only [Conn.call]
    split_ifs with hs
    · exact h.sendInLoop (hok hs)
    · exact h
  | shutdown =>
    dsimp only [Conn.call]
    split_ifs with hs
    · have hd : Guarded { c with state := .kDisconnecting } := h.setState (by simp [hs])
      exact hd.frame (shutdownInLoop_frame fun _ => trivial)
    · exact h
  | forceClose =>
    dsimp only [Conn.call]
    split_ifs with hs
    · have hd : Guarded { c with state := .kDisconnecting } :=
        h.setState (by rcases hs with hs | hs <;> simp [hs])
      exact hd.frame (.log trivial)
    · exact h
  | startRead => exact h.frame startReadInLoop_frame
  | stopRead => exact h.frame stopReadInLoop_frame
  | retrieve n => exact h.frame (.quiet rfl rfl rfl rfl rfl)
  | setErrno errno => exact h.frame .setErrno

theorem calls (h : c.Guarded) {ks : List Call} (hok : c.CallsSecure ks) : (c.calls ks).Guarded :=
  foldl_invariant (fun hs hk => hs.call hk) h hok

/-- A handshake that succeeds leaves an SSL object. -/
theorem handshake (h : c.Guarded) {hs : Handshake} : (c.handshake hs errno).Guarded := by
  have hsession : Guarded { c with
      sslConnected := (sslHandshake c.ssl hs).1, ssl := (sslHandshake c.ssl hs).2.1 } := by
    refine ⟨h.sslCtx, fun _ hconn => ?_, h.confidential⟩
    cases hs with
    | newFailed => exact absurd hconn Bool.false_ne_true
    | done => rfl
    | error code => exact absurd hconn Bool.false_ne_true
  exact hsession.ends react_ends

theorem connected_of_not_handshaking (h : c.Guarded) (hh : ¬ c.Handshaking) :
    c.sslConnected = true := by
  by_contra hconn
  exact hh ⟨h.sslCtx, by simpa using hconn⟩

theorem handleRead (h : c.Guarded) {hs : Handshake} {r : Reads} {ks : List Call}
    (hok : c.ActionSecure (.handleRead hs r ks)) : (c.handleRead hs r ks).Guarded := by
  dsimp only [Conn.handleRead]
  split_ifs with hh
  · exact h.handshake
  · have hread : (c.readMessage r ks).Guarded := by
      unfold readMessage
      split_ifs with hd
      · exact h.frame received_frame
      · exact (h.frame received_frame).calls (hok hh hd)
    exact (hread.frame .setErrno).ends react_ends

theorem handleWrite (h : c.Guarded) {hs : Handshake}
    (hok : c.state = .kDisconnected → c.channel.isWriting = false) :
    (c.handleWrite hs w).Guarded := by
  unfold Conn.handleWrite
  split_ifs with hh hw
  · exact h.handshake
  · have hopen : c.state ≠ .kDisconnected := fun hs => by simp [hok hs] at hw
    have ht : Frame Event.Protected c (c.transmit c.outputBuffer w) :=
      h.transmit (fun _ => hopen) fun _ => h.connected_of_not_handshaking hh
    exact h.ends (flush_ends (fun _ => trivial) trivial ht)
  · exact h

theorem perform {a : Action} (h : c.Guarded) (hne : ∀ ks, a ≠ .connectEstablished ks)
    (hok : c.ActionSecure a) : (c.perform a).Guarded := by
  cases a with
  | connectEstablished ks => exact absurd rfl (hne ks)
  | handleRead hs r ks => exact h.handleRead hok
  | handleWrite hs w => exact h.handleWrite hok
  | handleClose errno => exact h.handleClose
  | sendInLoop data w => exact h.sendInLoop hok
  | forceCloseInLoop errno =>
    dsimp only [Conn.perform, Conn.forceCloseInLoop]
    split_ifs
    · exact h.handleClose
    · exact h
  | user k => exact h.call hok

theorem step {a : Action} (h : c.Guarded) (hok : c.ActionSecure a) (hstep : c.step a = some c') :
    c'.Guarded := by
  rcases step_eq_some hstep with ⟨hstate, ks, rfl, rfl⟩ | ⟨-, hne, rfl⟩
  · have hconn : Guarded { c with state := .kConnected } := h.setState (by simp [hstate])
    have hread : Guarded (enableReading { c with state := .kConnected }) :=
      hconn.frame (.quiet rfl rfl rfl rfl rfl)
    have hest : c.established.Guarded := hread.frame (.log trivial)
    exact hest.calls hok
  · exact h.perform hne hok

end Guarded

/-- In every run of a TLS connection whose steps all meet the condition, data is only ever handed
to `SSL_write`, and only after the handshake has succeeded. -/
theorem confidential_of_run {enableEt complete high : Bool} {mark errno : ℕ} {as : List Action}
    (hok : Meets step ActionSecure (create true enableEt complete high mark errno) as)
    (hrun : run step (create true enableEt complete high mark errno) as = some c) :
    c.Confidential := by
  have hinit : (create true enableEt complete high mark errno).Guarded :=
    ⟨rfl, fun _ hconn => absurd hconn Bool.false_ne_true, by simp [Confidential, create]⟩
  exact (run_invariant Guarded.step hinit hok hrun).confidential

/-- The handshake, then a message and its answer. -/
def secureEcho : List Action :=
  [.connectEstablished [], .handleRead .done ⟨[], .failed, 0, 0, 0⟩ [],
    .handleRead .done ⟨[1], .failed, 0, 0, 0⟩ [.send [1] ⟨[0], .failed, 0, 0, 0⟩]]

theorem confidential_of_run_secureEcho : ∃ c,
    run step (create true true true false 67108864 0) secureEcho = some c ∧
      .sslWrite true [1] 1 ∈ c.trace ∧ c.Confidential := by
  have hrun : ∃ c, run step (create true true true false 67108864 0) secureEcho = some c ∧
      .sslWrite true [1] 1 ∈ c.trace := ⟨_, rfl, by decide⟩
  obtain ⟨c, hrun, hmem⟩ := hrun
  exact ⟨c, hrun, hmem, confidential_of_run (by decide) hrun⟩

/-- A greeting sent by the connection callback, when there is no SSL object yet, is handed to
`write(2)`. -/
theorem not_confidential_greeting : ∃ c,
    run step (create true true true false 67108864 0)
      [.connectEstablished [.send [1] ⟨[0], .failed, 0, 0, 0⟩]] = some c ∧ ¬ c.Confidential := by
  refine ⟨_, rfl, fun h => ?_⟩
  exact h (.write [1] 1) (by decide)

end Conn

end LibWebsocket.Tcp
