import LibWebsocket.Tcp.Frame

/-! Output that waits to be written, and the half-close that waits for it. Other threads hand
their calls to the loop; `shutdown` also sets `state_` at once, and what it has queued may find
a connection that was closed in between. -/
namespace LibWebsocket.Tcp
open Lib

/-- `socket_->shutdownWrite()` finds nothing left to write. -/
def Event.Flushed : Event → Prop
  | .shutdownWrite outputBuffer => outputBuffer = []
  | _ => True

/-! ## Runs with other threads -/

/-- A connection, and how many calls of `shutdownInLoop` other threads have queued. -/
structure Posted where
  conn : Conn
  shutdowns : ℕ
deriving DecidableEq, Repr

/-- The loop acts, another thread calls `shutdown`, or the loop runs what such a call has queued.
The other calls of another thread reach the loop as actions of its own. -/
inductive Turn
  | loop (a : Action)
  | shutdown
  | shutdownInLoop
deriving DecidableEq, Repr

namespace Posted

def create (sslCtx enableEt writeCompleteCallback highWaterMarkCallback : Bool)
    (highWaterMark errno : ℕ) : Posted where
  conn := .create sslCtx enableEt writeCompleteCallback highWaterMarkCallback highWaterMark errno
  shutdowns := 0

-- The other thread tests and sets `state_` without a lock; here the two are one step.
def step (p : Posted) : Turn → Option Posted
  | .loop a => (p.conn.step a).map fun c => { p with conn := c }
  | .shutdown =>
    if p.conn.state = .kConnected then
      some ⟨{ p.conn with state := .kDisconnecting }, p.shutdowns + 1⟩
    else some p
  | .shutdownInLoop =>
    if p.shutdowns = 0 then none else some ⟨p.conn.shutdownInLoop, p.shutdowns - 1⟩

/-- A `shutdownInLoop` that finds the connection closed has write interest or no output left. -/
def ShutdownOk (p : Posted) (t : Turn) : Prop :=
  t = .shutdownInLoop → p.conn.state = .kDisconnected →
    p.conn.channel.isWriting = true ∨ p.conn.outputBuffer = []

instance {p : Posted} {t : Turn} : Decidable (p.ShutdownOk t) := inferInstanceAs (Decidable (_ → _))

end Posted

namespace Conn
variable {c c' c'' : Conn} {data : Bytes} {w : Writes} {errno n : ℕ}

/-- While the connection is not closed, output that waits has write interest. -/
def Pending (c : Conn) : Prop :=
  c.state ≠ .kDisconnected → c.outputBuffer ≠ [] → c.channel.isWriting = true

/-- Every half-close so far has waited for the output. -/
def Drained (c : Conn) : Prop := ∀ e ∈ c.trace, e.Flushed

/-! ## What the loop does -/

/-- From `c` to `c'`, output that waits keeps its write interest, and no half-close overtakes it. -/
def Waits (c c' : Conn) : Prop :=
  c.Pending → c'.Pending ∧ ∃ es, c'.trace = c.trace ++ es ∧ ∀ e ∈ es, e.Flushed

namespace Waits

theorem of_frame (hf : Frame Event.Flushed c c') (hp : c.Pending → c'.Pending) : Waits c c' :=
  fun h => ⟨hp h, hf.trace⟩

theorem of_calm (hf : Frame Event.Flushed c c') (hc : Calm c c') : Waits c c' := by
  refine of_frame hf fun h => ?_
  rw [Pending, hc.state, hc.outputBuffer, hc.channel]
  exact h

theorem refl : Waits c c := of_frame .refl id

theorem trans (h : Waits c c') (h' : Waits c' c'') : Waits c c'' := by
  intro hp
  obtain ⟨hp', es, he, hes⟩ := h hp
  obtain ⟨hp'', es', he', hes'⟩ := h' hp'
  refine ⟨hp'', es ++ es', by rw [he', he, List.append_assoc], ?_⟩
  intro e hmem
  exact (List.mem_append.mp hmem).elim (hes e) (hes' e)

theorem drained_iff (h : Waits c c') (hp : c.Pending) : c'.Drained ↔ c.Drained := by
  obtain ⟨-, es, he, hes⟩ := h hp
  rw [Drained, he, List.forall_mem_append]
  exact and_iff_left hes

end Waits

theorem handleClose_waits : Waits c (c.handleClose errno) := by
  intro _
  refine ⟨fun hs => absurd rfl hs, _, rfl, ?_⟩
  simp [Event.Flushed]

theorem react_waits {r : Reaction} : Waits c (c.react errno r) := by
  by_cases hr : r = .close
  · rw [hr]
    exact handleClose_waits
  refine .of_frame (react_frame hr) fun h => ?_
  -- No reaction takes write interest away.
  cases r with
  | ignore | wantRead => exact h
  | wantWrite => exact fun _ _ => rfl
  | rearm =>
    dsimp only [react]
    split_ifs <;> exact h
  | close => exact absurd rfl hr

theorem transmit_waits : Waits c (c.transmit data w) :=
  .of_calm (transmit_frame (fun _ _ => trivial) fun _ _ => trivial) transmit_calm

theorem appendOutput_waits : Waits c (c.appendOutput data) := by
  refine .of_frame (appendOutput_frame fun _ => trivial) fun h => ?_
  unfold appendOutput
  split_ifs with hd hw
  · exact h
  · exact fun _ _ => hw
  · exact fun _ _ => rfl

theorem pieces_waits : Pieces Waits where
  refl := .refl
  trans := .trans
  setErrno := .of_calm .setErrno setErrno_calm
  received := .of_calm received_frame received_calm
  session := fun hp => ⟨hp, [], by simp, by simp⟩
  directWritten := by
    intro c data w
    have ht : Frame Event.Flushed c (c.transmit data w) :=
      transmit_frame (fun _ _ => trivial) fun _ _ => trivial
    exact .of_calm (directWritten_frame (fun _ => trivial) ht) directWritten_calm
  appendOutput := appendOutput_waits
  react := fun _ => react_waits

/-- On a connection that is open the channel tells whether there is output left. -/
theorem shutdownInLoop_waits (hs : c.state ≠ .kDisconnected) : Waits c c.shutdownInLoop := by
  intro h
  refine Waits.of_calm (shutdownInLoop_frame fun hw => ?_) shutdownInLoop_calm h
  by_contra hne
  exact absurd (h hs hne) (by simp [hw])

theorem setState_waits {s : StateE} (hs : c.state ≠ .kDisconnected) :
    Waits c { c with state := s } :=
  fun h => ⟨fun _ => h hs, [], by simp, by simp⟩

theorem call_waits {k : Call} : Waits c (c.call k) := by
  cases k with
  | send message w =>
    dsimp only [call]
    split_ifs
    · exact pieces_waits.sendInLoop
    · exact .refl
  | shutdown =>
    dsimp only [call]
    split_ifs with hs
    · exact (setState_waits (by simp [hs])).trans (shutdownInLoop_waits StateE.noConfusion)
    · exact .refl
  | forceClose =>
    dsimp only [call]
    split_ifs with hs
    · have hne : c.state ≠ .kDisconnected := by rcases hs with hs | hs <;> simp [hs]
      exact (setState_waits hne).trans (.of_calm (.log trivial) log_calm)
    · exact .refl
  | startRead =>
    refine .of_frame startReadInLoop_frame fun h => ?_
    dsimp only [call, startReadInLoop]
    split_ifs <;> exact h
  | stopRead =>
    refine .of_frame stopReadInLoop_frame fun h => ?_
    dsimp only [call, stopReadInLoop]
    split_ifs <;> exact h
  | retrieve n => exact .of_calm (.quiet rfl rfl rfl rfl rfl) ⟨rfl, rfl, rfl, rfl⟩
  | setErrno errno => exact .of_calm .setErrno setErrno_calm

theorem handleRead_waits {h : Handshake} {r : Reads} {ks : List Call} :
    Waits c (c.handleRead h r ks) := by
  dsimp only [handleRead]
  split_ifs
  · exact pieces_waits.handshake
  · have hread : Waits c (c.readMessage r ks) := pieces_waits.readMessage fun _ _ _ => call_waits
    exact (hread.trans pieces_waits.setErrno).trans react_waits

/-- Write interest is given up only when the last byte has been written. -/
theorem retrieveOutput_waits : Waits c (c.retrieveOutput n) := by
  refine .of_frame (retrieveOutput_frame (fun _ => trivial) rfl) fun h => ?_
  have hcalm := retrieveOutput_calm (c := c) (n := n)
  rw [Pending, hcalm.state, hcalm.outputBuffer, hcalm.channel]
  intro hs hne
  rw [if_pos (Or.inr hne)]
  exact h hs fun hnil => hne (by simp [hnil])

theorem flush_waits : Waits c (c.flush w) := by
  dsimp only [flush]
  apply Waits.trans _ react_waits
  apply (transmit_waits.trans retrieveOutput_waits).trans
  exact pieces_waits.setErrno

theorem handleWrite_waits {h : Handshake} : Waits c (c.handleWrite h w) := by
  unfold handleWrite
  split_ifs
  · exact pieces_waits.handshake
  · exact flush_waits
  · exact .refl

theorem connectEstablished_waits {ks : List Call} (hs : c.state ≠ .kDisconnected) :
    Waits c (c.connectEstablished ks) := by
  have hreading : Waits { c with state := .kConnected }
      (enableReading { c with state := .kConnected }) :=
    fun h => ⟨h, [], by simp [enableReading], by simp⟩
  have hestablished : Waits c c.established :=
    ((setState_waits hs).trans hreading).trans (.of_calm (.log trivial) log_calm)
  exact hestablished.trans (pieces_waits.calls fun _ _ _ => call_waits)

theorem step_waits {a : Action} (hstep : c.step a = some c') : Waits c c' := by
  rcases step_eq_some hstep with ⟨hs, ks, rfl, rfl⟩ | ⟨-, hne, rfl⟩
  · exact connectEstablished_waits (by simp [hs])
  · cases a with
    | connectEstablished ks => exact absurd rfl (hne ks)
    | handleRead h r ks => exact handleRead_waits
    | handleWrite h w => exact handleWrite_waits
    | handleClose errno => exact handleClose_waits
    | sendInLoop data w => exact pieces_waits.sendInLoop
    | forceCloseInLoop errno => exact pieces_waits.forceCloseInLoop
    | user k => exact call_waits

/-- In the thread of the loop alone, a half-close always waits for the output. -/
theorem drained_of_run {sslCtx enableEt complete high : Bool} {mark errno : ℕ} {as : List Action}
    (hrun : run step (create sslCtx enableEt complete high mark errno) as = some c) :
    c.Pending ∧ c.Drained := by
  refine Reachable.invariant (P := fun c => c.Pending ∧ c.Drained) ?_ ?_ ⟨as, hrun⟩
  · exact ⟨fun _ hne => absurd rfl hne, by simp [Drained, create]⟩
  · rintro c a c' ⟨hp, hd⟩ hstep
    exact ⟨(step_waits hstep hp).1, ((step_waits hstep).drained_iff hp).mpr hd⟩

/-- `shutdownInLoop` may find any connection when it was queued by another thread. -/
theorem drained_shutdownInLoop_iff : c.shutdownInLoop.Drained ↔
    c.Drained ∧ (c.channel.isWriting = true ∨ c.outputBuffer = []) := by
  unfold shutdownInLoop
  split_ifs with hw
  · simp [hw]
  · rw [Drained, log, List.forall_mem_append, List.forall_mem_singleton]
    exact and_congr_right fun _ => (or_iff_right hw).symm

end Conn

/-! ## All threads -/

namespace Posted
variable {p p' : Posted} {t : Turn}

theorem step_waits (ht : t ≠ .shutdownInLoop) (hstep : p.step t = some p') :
    p.conn.Waits p'.conn := by
  cases t with
  | loop a =>
    obtain ⟨c, hc, rfl⟩ := Option.map_eq_some_iff.mp hstep
    exact Conn.step_waits hc
  | shutdown =>
    dsimp only [step] at hstep
    split_ifs at hstep with hs <;> cases hstep
    · exact Conn.setState_waits (by simp [hs])
    · exact .refl
  | shutdownInLoop => exact absurd rfl ht

theorem step_shutdownInLoop (hstep : p.step .shutdownInLoop = some p') :
    p'.conn = p.conn.shutdownInLoop := by
  dsimp only [step] at hstep
  split_ifs at hstep
  cases hstep
  rfl

theorem pending_step (h : p.conn.Pending) (hstep : p.step t = some p') : p'.conn.Pending := by
  by_cases ht : t = .shutdownInLoop
  · subst ht
    have hcalm : Calm p.conn p.conn.shutdownInLoop := Conn.shutdownInLoop_calm
    rw [step_shutdownInLoop hstep, Conn.Pending, hcalm.state, hcalm.outputBuffer, hcalm.channel]
    exact h
  · exact (step_waits ht hstep h).1

theorem drained_step_iff (h : p.conn.Pending) (hstep : p.step t = some p') :
    p'.conn.Drained ↔ p.conn.Drained ∧ p.ShutdownOk t := by
  by_cases ht : t = .shutdownInLoop
  · subst ht
    rw [step_shutdownInLoop hstep, Conn.drained_shutdownInLoop_iff]
    refine and_congr_right fun _ => ⟨fun hok _ _ => hok, fun hok => ?_⟩
    by_cases hs : p.conn.state = .kDisconnected
    · exact hok rfl hs
    · by_cases hne : p.conn.outputBuffer = []
      · exact Or.inr hne
      · exact Or.inl (h hs hne)
  · rw [(step_waits ht hstep).drained_iff h]
    exact (and_iff_left fun hq => absurd hq ht).symm

/-- In every run, with either trigger mode and with or without SSL, output that waits has write
interest while the connection is not closed; and the half-closes have all waited for the output
exactly if no queued `shutdownInLoop` has found a closed connection with output left. -/
theorem drained_iff_of_run {sslCtx enableEt complete high : Bool} {mark errno : ℕ} {ts : List Turn}
    (hrun : run step (create sslCtx enableEt complete high mark errno) ts = some p) :
    p.conn.Pending ∧ (p.conn.Drained ↔
      Meets step ShutdownOk (create sslCtx enableEt complete high mark errno) ts) := by
  have hpending : (create sslCtx enableEt complete high mark errno).conn.Pending :=
    fun _ hne => absurd rfl hne
  have hdrained : (create sslCtx enableEt complete high mark errno).conn.Drained := by
    simp [Conn.Drained, create, Conn.create]
  refine ⟨Reachable.invariant (P := fun p : Posted => p.conn.Pending) hpending pending_step ⟨ts, hrun⟩, ?_⟩
  exact run_iff_meets (R := fun p : Posted => p.conn.Pending) pending_step drained_step_iff hpending
    hdrained hrun

/-- A byte that cannot be written yet, a `shutdown` by another thread, and the byte written. -/
def lastByte : List Turn :=
  [.loop (.connectEstablished []), .loop (.sendInLoop [1] ⟨[], .failed, 0, EAGAIN, 0⟩), .shutdown,
    .shutdownInLoop, .loop (.handleWrite .done ⟨[0], .failed, 0, 0, 0⟩)]

theorem drained_iff_of_run_lastByte : ∃ p,
    run step (create false true true false 67108864 0) lastByte = some p ∧
      .shutdownWrite [] ∈ p.conn.trace ∧ p.conn.Pending ∧ p.conn.Drained := by
  have hrun : ∃ p, run step (create false true true false 67108864 0) lastByte = some p ∧
      .shutdownWrite [] ∈ p.conn.trace := ⟨_, rfl, by decide⟩
  obtain ⟨p, hrun, hmem⟩ := hrun
  have h := drained_iff_of_run hrun
  exact ⟨p, hrun, hmem, h.1, h.2.mpr (by decide)⟩

/-- The peer goes away before the byte is written and before the loop comes to what `shutdown`
has queued. The close took the write interest away, so `shutdownInLoop` half-closes a socket
whose output buffer holds the byte. -/
theorem not_drained_closed : ∃ p,
    run step (create false true true false 67108864 0)
      [.loop (.connectEstablished []), .loop (.sendInLoop [1] ⟨[], .failed, 0, EAGAIN, 0⟩),
        .shutdown, .loop (.handleRead .done ⟨[], .zero, 0, 0, 0⟩ []), .shutdownInLoop] = some p ∧
      ¬ p.conn.Drained := by
  refine ⟨_, rfl, fun h => ?_⟩
  exact absurd (h (.shutdownWrite [1]) (by decide)) (List.cons_ne_nil 1 [])

end Posted

end LibWebsocket.Tcp
