import LibWebsocket.Tcp.Healthy
import LibWebsocket.Tcp.HalfClose

/-! Read interest and trigger mode of an open connection. Two places of the handlers lose them:
giving up write interest takes `EPOLLET` away, and the query behind an SSL read takes the read
events away and sets them again only if some other event is left. -/
namespace LibWebsocket.Tcp
open Lib

def Action.StopsRead : Action → Prop
  | .connectEstablished ks | .handleRead _ _ ks => Call.stopRead ∈ ks
  | .user k => k = .stopRead
  | _ => False

def Turn.StopsRead : Turn → Prop
  | .loop a => a.StopsRead
  | _ => False

instance : ∀ {a : Action}, Decidable a.StopsRead
  | .connectEstablished _ | .handleRead _ _ _ => inferInstanceAs (Decidable (_ ∈ _))
  | .user _ => inferInstanceAs (Decidable (_ = _))
  | .handleWrite _ _ | .handleClose _ | .sendInLoop _ _ | .forceCloseInLoop _ =>
    .isFalse not_false

instance : ∀ {t : Turn}, Decidable t.StopsRead
  | .loop a => inferInstanceAs (Decidable a.StopsRead)
  | .shutdown | .shutdownInLoop => .isFalse not_false

namespace Conn
variable {c c' c'' : Conn} {data : Bytes} {w : Writes} {r : Reaction} {errno n : ℕ}

/-- Read interest, in the trigger mode of the connection. -/
def Armed (c : Conn) : Prop := c.channel.isReading = true ∧ c.channel.et = c.enableEt

def Steady (c : Conn) : Prop := c.state = .kConnected → c.Armed

/-! ## The condition -/

/-- `handleWrite` writes the output buffer to its end. -/
def Empties (c : Conn) (w : Writes) : Prop :=
  c.outputBuffer ≠ [] ∧ c.outputBuffer.drop (c.written c.outputBuffer.length w).1 = []

instance : Decidable (c.Empties w) := inferInstanceAs (Decidable (_ ∧ _))

/-- In level-triggered mode no SSL read ends with nothing pending while there is no write
interest; in edge-triggered mode no `handleWrite` empties the output buffer, unless `errno` makes
it ask for write interest again, or close. -/
def TriggerOk (c : Conn) : Action → Prop
  | .handleRead _ r ks =>
    ¬ c.Handshaking → (c.readMessage r ks).state = .kConnected →
      ((c.readMessage r ks).readReaction (c.savedErrno r)).1 = .rearm →
        c.enableEt = true ∨ (c.readMessage r ks).channel.isWriting = true
  | .handleWrite _ w =>
    c.state = .kConnected → c.enableEt = true → ¬ c.Handshaking → c.channel.isWriting = true →
      c.Empties w → (c.directReaction c.outputBuffer w).1 ≠ .ignore
  | _ => True

instance : ∀ {a : Action}, Decidable (c.TriggerOk a)
  | .handleRead _ _ _ => inferInstanceAs (Decidable (_ → _))
  | .handleWrite _ _ => inferInstanceAs (Decidable (_ → _))
  | .connectEstablished _ | .handleClose _ | .sendInLoop _ _ | .forceCloseInLoop _ | .user _ =>
    .isTrue trivial

/-! ## What the pieces keep -/

/-- `EPOLLET` is not set without `enable_et_`. -/
def Mode (c : Conn) : Prop := c.channel.et = true → c.enableEt = true

/-- A connection does not become open again, nor is its mode overridden. -/
structure Tracks (c c' : Conn) : Prop where
  enableEt : c'.enableEt = c.enableEt
  state : c'.state = .kConnected → c.state = .kConnected
  mode : c.Mode → c'.Mode

/-- Interest and mode are kept as well if the connection stays open. -/
structure Keeps (c c' : Conn) : Prop extends Tracks c c' where
  armed : c'.state = .kConnected → c.Armed → c'.Armed

theorem Tracks.trans (h : Tracks c c') (h' : Tracks c' c'') : Tracks c c'' :=
  ⟨h'.enableEt.trans h.enableEt, fun hs => h.state (h'.state hs), fun hm => h'.mode (h.mode hm)⟩

namespace Keeps

theorem trans (h : Keeps c c') (h' : Keeps c' c'') : Keeps c c'' where
  toTracks := h.toTracks.trans h'.toTracks
  armed := fun hs ha => h'.armed hs (h.armed (h'.state hs) ha)

theorem of_eq (hstate : c'.state = c.state) (hchannel : c'.channel = c.channel)
    (henable : c'.enableEt = c.enableEt) : Keeps c c' where
  enableEt := henable
  state := fun hs => hstate ▸ hs
  mode := by
    rw [Mode, Mode, hchannel, henable]
    exact id
  armed := by
    intro _
    rw [Armed, Armed, hchannel, henable]
    exact id

theorem of_calm (h : Calm c c') : Keeps c c' := of_eq h.state h.channel h.enableEt

theorem refl : Keeps c c := of_calm refl_calm

/-- A connection that is no longer open has nothing to keep. -/
theorem of_state (hs : c'.state ≠ .kConnected) (he : c'.enableEt = c.enableEt)
    (hm : c.Mode → c'.Mode) : Keeps c c' :=
  ⟨⟨he, fun h => absurd h hs, hm⟩, fun h => absurd h hs⟩

theorem steady (h : Keeps c c') (hs : c.Steady) : c'.Steady :=
  fun hc => h.armed hc (hs (h.state hc))

end Keeps

theorem enableReading_keeps : Keeps c c.enableReading := by
  refine ⟨⟨rfl, id, fun hm => ?_⟩, fun _ ha => ⟨rfl, ?_⟩⟩
  · intro het
    exact (Bool.or_eq_true_iff.mp het).elim hm id
  · simp [enableReading, Channel.enableReading, ha.2]

theorem enableWriting_keeps : Keeps c c.enableWriting := by
  refine ⟨⟨rfl, id, fun hm => ?_⟩, fun _ ha => ⟨ha.1, ?_⟩⟩
  · intro het
    exact (Bool.or_eq_true_iff.mp het).elim hm id
  · simp [enableWriting, Channel.enableWriting, ha.2]

theorem handleClose_keeps : Keeps c (c.handleClose errno) :=
  .of_state StateE.noConfusion rfl fun _ het => absurd het Bool.false_ne_true

theorem react_keeps (hr : r ≠ .rearm) : Keeps c (c.react errno r) := by
  cases r with
  | ignore => exact .refl
  | wantRead => exact enableReading_keeps
  | wantWrite => exact enableWriting_keeps
  | rearm => exact absurd rfl hr
  | close => exact handleClose_keeps

/-- The read events are taken away, and set again if an event is left. -/
theorem armed_rearm_iff (h : c.Armed) :
    (c.react errno .rearm).Armed ↔ c.enableEt = true ∨ c.channel.isWriting = true := by
  have hleft : c.channel.isETReading.1 = true ↔
      c.enableEt = true ∨ c.channel.isWriting = true := by
    simp [Channel.isETReading, h.2, or_comm]
  rw [← hleft]
  dsimp only [react]
  split_ifs with hevents
  · refine iff_of_true ⟨rfl, ?_⟩ hevents
    simp [enableReading, Channel.enableReading, Channel.isETReading, h.2]
  · exact iff_of_false (fun harmed => Bool.false_ne_true harmed.1) hevents

theorem react_tracks : Tracks c (c.react errno r) := by
  by_cases hr : r = .rearm
  · subst hr
    have hquery : Tracks c { c with channel := c.channel.isETReading.2 } := ⟨rfl, id, id⟩
    dsimp only [react]
    split_ifs
    · exact hquery.trans enableReading_keeps.toTracks
    · exact hquery
  · exact (react_keeps hr).toTracks

/-! ## Sending, and calls of user code -/

theorem appendOutput_keeps : Keeps c (c.appendOutput data) := by
  have hmark : Calm c (c.checkHighWaterMark data.length) := checkHighWaterMark_calm
  unfold appendOutput
  split_ifs
  · exact .refl
  · exact .of_eq hmark.state rfl hmark.enableEt
  · exact enableWriting_keeps.trans (.of_eq hmark.state rfl hmark.enableEt)

theorem pieces_keeps : Pieces Keeps where
  refl := .refl
  trans := .trans
  setErrno := .of_calm setErrno_calm
  received := .of_calm received_calm
  session := .of_eq rfl rfl rfl
  directWritten := .of_calm directWritten_calm
  appendOutput := appendOutput_keeps
  react := react_keeps

theorem call_keeps {k : Call} (hk : k ≠ .stopRead) : Keeps c (c.call k) := by
  cases k with
  | send message w =>
    dsimp only [call]
    split_ifs
    · exact pieces_keeps.sendInLoop
    · exact .refl
  | shutdown =>
    dsimp only [call]
    split_ifs
    · have hstate : Keeps c { c with state := .kDisconnecting } :=
        .of_state StateE.noConfusion rfl id
      exact hstate.trans (.of_calm shutdownInLoop_calm)
    · exact .refl
  | forceClose =>
    dsimp only [call]
    split_ifs
    · exact .of_state StateE.noConfusion rfl id
    · exact .refl
  | startRead =>
    dsimp only [call, startReadInLoop]
    split_ifs
    · exact enableReading_keeps.trans (.of_eq rfl rfl rfl)
    · exact .refl
  | stopRead => exact absurd rfl hk
  | retrieve n => exact .of_eq rfl rfl rfl
  | setErrno errno => exact .of_calm setErrno_calm

theorem calls_keeps {ks : List Call} (hks : .stopRead ∉ ks) : Keeps c (c.calls ks) :=
  pieces_keeps.calls fun _ hk _ => call_keeps (ne_of_mem_of_not_mem hk hks)

/-! ## Handlers -/

/-- The connection on which `handleRead` comes to its switches. -/
theorem readSwitch_keeps {r : Reads} {ks : List Call} (hks : .stopRead ∉ ks) :
    Keeps c ((c.readMessage r ks).setErrno errno) := by
  have hread : Keeps c (c.readMessage r ks) :=
    pieces_keeps.readMessage fun _ hk _ => call_keeps (ne_of_mem_of_not_mem hk hks)
  exact hread.trans pieces_keeps.setErrno

theorem handleRead_tracks {h : Handshake} {r : Reads} {ks : List Call} (hks : .stopRead ∉ ks) :
    Tracks c (c.handleRead h r ks) := by
  dsimp only [handleRead]
  split_ifs
  · exact pieces_keeps.handshake.toTracks
  · exact (readSwitch_keeps hks).toTracks.trans react_tracks

theorem steady_handleRead_iff {h : Handshake} {r : Reads} {ks : List Call} (hs : c.Steady)
    (hks : .stopRead ∉ ks) :
    (c.handleRead h r ks).Steady ↔ c.TriggerOk (.handleRead h r ks) := by
  dsimp only [TriggerOk, handleRead]
  split_ifs with hh
  · exact iff_of_true (pieces_keeps.handshake.steady hs) fun hn => absurd hh hn
  have hread : Keeps c ((c.readMessage r ks).setErrno
      ((c.readMessage r ks).readReaction (c.savedErrno r)).2) := readSwitch_keeps hks
  by_cases hr : ((c.readMessage r ks).readReaction (c.savedErrno r)).1 = .rearm
  · rw [hr]
    have hstate : ∀ c₁ : Conn, (c₁.react r.afterClose .rearm).state = c₁.state :=
      fun c₁ => (react_frame (P := fun _ => True) Reaction.noConfusion).state
    rw [Steady, hstate]
    simp only [hh, not_false_eq_true, forall_const]
    refine forall_congr' fun hc => ?_
    rw [armed_rearm_iff (hread.steady hs hc), hread.enableEt]
    rfl
  · exact iff_of_true ((hread.trans (react_keeps hr)).steady hs) fun _ _ h => absurd h hr

/-! ## `handleWrite` -/

/-- The connection on which `handleWrite` comes to its switches. -/
def sent (c : Conn) (w : Writes) : Conn :=
  (c.transmit c.outputBuffer w).retrieveOutput (c.written c.outputBuffer.length w).1

theorem retrieve_iff_not_empties : ((c.written c.outputBuffer.length w).1 = 0 ∨
    c.outputBuffer.drop (c.written c.outputBuffer.length w).1 ≠ []) ↔ ¬ c.Empties w := by
  unfold Empties
  by_cases hnil : c.outputBuffer = []
  · have hzero : (c.written 0 w).1 = 0 := by
      unfold written
      split_ifs <;> simp [sslWrite, writeFull]
    simp [hnil, hzero]
  · have hzero : (c.written c.outputBuffer.length w).1 = 0 →
        c.outputBuffer.drop (c.written c.outputBuffer.length w).1 ≠ [] := by
      intro hn
      rwa [hn, List.drop_zero]
    rw [or_iff_right_of_imp hzero]
    simp [hnil]

theorem sent_channel : (c.sent w).channel =
    if c.Empties w then c.channel.disableWriting c.enableEt else c.channel := by
  rw [sent, retrieveOutput_calm.channel, transmit_calm.outputBuffer, transmit_calm.channel,
    transmit_calm.enableEt]
  simp only [retrieve_iff_not_empties, ite_not]

theorem sent_state : (c.sent w).state = c.state :=
  retrieveOutput_calm.state.trans transmit_calm.state

theorem sent_enableEt : (c.sent w).enableEt = c.enableEt :=
  retrieveOutput_calm.enableEt.trans transmit_calm.enableEt

theorem sent_tracks : Tracks c (c.sent w) := by
  refine ⟨sent_enableEt, fun hs => sent_state ▸ hs, fun hm => ?_⟩
  rw [Mode, sent_channel, sent_enableEt]
  split_ifs
  · intro het
    exact hm (Bool.and_eq_true_iff.mp het).1
  · exact hm

/-- Giving up write interest takes `EPOLLET` away. -/
theorem armed_sent_iff (h : c.Armed) :
    (c.sent w).Armed ↔ ¬ (c.enableEt = true ∧ c.Empties w) := by
  rw [Armed, sent_channel, sent_enableEt]
  split_ifs with he
  · simp [Channel.disableWriting, h.1, h.2, he]
  · simp [h.1, h.2, he]

theorem armed_enableWriting (hread : c.channel.isReading = true) (hm : c.Mode) :
    c.enableWriting.Armed := by
  refine ⟨hread, ?_⟩
  show (c.channel.et || c.enableEt) = c.enableEt
  exact Bool.or_eq_right_iff_imp.mpr hm

theorem sent_isReading : (c.sent w).channel.isReading = c.channel.isReading := by
  rw [sent_channel]
  split_ifs <;> rfl

theorem flush_eq : c.flush w =
    ((c.sent w).setErrno (c.directReaction c.outputBuffer w).2).react w.afterClose
      (c.directReaction c.outputBuffer w).1 := by
  dsimp only [flush]
  rw [retrieveOutput_writeReaction]
  rfl

theorem writeReaction_cases {e : ℤ} : (c.writeReaction e).1 = .ignore ∨
    (c.writeReaction e).1 = .wantWrite ∨ (c.writeReaction e).1 = .close := by
  simp only [writeReaction, sslWriteReaction, plainWrite, plainReaction, errnoReaction]
  split_ifs <;> simp

theorem handleWrite_tracks {h : Handshake} : Tracks c (c.handleWrite h w) := by
  unfold handleWrite
  split_ifs
  · exact pieces_keeps.handshake.toTracks
  · rw [flush_eq]
    exact (sent_tracks.trans pieces_keeps.setErrno.toTracks).trans react_tracks
  · exact Keeps.refl.toTracks

theorem steady_flush_iff (hs : c.Steady) : (c.flush w).Steady ↔ (c.state = .kConnected →
    c.enableEt = true → c.Empties w → (c.directReaction c.outputBuffer w).1 ≠ .ignore) := by
  rw [flush_eq]
  have hcalm : Calm (c.sent w) ((c.sent w).setErrno (c.directReaction c.outputBuffer w).2) :=
    setErrno_calm
  rcases writeReaction_cases (c := c.transmit c.outputBuffer w)
    (e := (c.written c.outputBuffer.length w).2) with hr | hr | hr <;>
    rw [← directReaction] at hr <;> rw [hr]
  · -- nothing is done about the bit that is lost
    have hsteady : (c.sent w).Steady ↔ (c.state = .kConnected → (c.sent w).Armed) := by
      rw [Steady, sent_state]
    refine hsteady.trans (forall_congr' fun hc => ?_)
    rw [armed_sent_iff (hs hc)]
    simp
  · refine iff_of_true (fun hc => ?_) fun _ _ _ => Reaction.noConfusion
    have hopen : c.state = .kConnected := sent_state ▸ hc
    have hmode : c.Mode := fun het => (hs hopen).2 ▸ het
    exact armed_enableWriting (sent_isReading.trans (hs hopen).1) (sent_tracks.mode hmode)
  · exact iff_of_true (fun hc => absurd hc StateE.noConfusion) fun _ _ _ => Reaction.noConfusion

theorem steady_handleWrite_iff {h : Handshake} (hs : c.Steady) :
    (c.handleWrite h w).Steady ↔ c.TriggerOk (.handleWrite h w) := by
  dsimp only [TriggerOk]
  unfold handleWrite
  split_ifs with hh hw
  · exact iff_of_true (pieces_keeps.handshake.steady hs) fun _ _ hn => absurd hh hn
  · rw [steady_flush_iff hs]
    simp only [hh, hw, not_false_eq_true, forall_const]
  · exact iff_of_true hs fun _ _ _ h => absurd h hw

/-! ## Runs -/

theorem established_armed (h : c.Mode) : c.established.Armed := by
  refine ⟨rfl, ?_⟩
  show (c.channel.et || c.enableEt) = c.enableEt
  exact Bool.or_eq_right_iff_imp.mpr h

theorem step_trigger {a : Action} (hm : c.Mode) (ha : ¬ a.StopsRead)
    (hstep : c.step a = some c') : c'.Mode ∧ (c.Steady → (c'.Steady ↔ c.TriggerOk a)) := by
  have hkeeps : Keeps c c' → c.TriggerOk a →
      c'.Mode ∧ (c.Steady → (c'.Steady ↔ c.TriggerOk a)) :=
    fun h hok => ⟨h.mode hm, fun hs => iff_of_true (h.steady hs) hok⟩
  rcases step_eq_some hstep with ⟨-, ks, rfl, rfl⟩ | ⟨-, hne, rfl⟩
  · have harmed := established_armed hm
    have hmode : c.established.Mode := fun het => harmed.2 ▸ het
    have hcalls : Keeps c.established (c.connectEstablished ks) := calls_keeps ha
    exact ⟨hcalls.mode hmode, fun _ => iff_of_true (hcalls.steady fun _ => harmed) trivial⟩
  · cases a with
    | connectEstablished ks => exact absurd rfl (hne ks)
    | handleRead h r ks =>
      exact ⟨(handleRead_tracks ha).mode hm, fun hs => steady_handleRead_iff hs ha⟩
    | handleWrite h w => exact ⟨handleWrite_tracks.mode hm, steady_handleWrite_iff⟩
    | handleClose errno => exact hkeeps handleClose_keeps trivial
    | sendInLoop data w => exact hkeeps pieces_keeps.sendInLoop trivial
    | forceCloseInLoop errno => exact hkeeps pieces_keeps.forceCloseInLoop trivial
    | user k => exact hkeeps (call_keeps ha) trivial

end Conn

namespace Posted
variable {p p' : Posted} {t : Turn}

def TriggerOk (p : Posted) : Turn → Prop
  | .loop a => p.conn.TriggerOk a
  | _ => True

instance : ∀ {t : Turn}, Decidable (p.TriggerOk t)
  | .loop a => inferInstanceAs (Decidable (p.conn.TriggerOk a))
  | .shutdown | .shutdownInLoop => .isTrue trivial

theorem step_trigger (hm : p.conn.Mode) (ht : ¬ t.StopsRead) (hstep : p.step t = some p') :
    p'.conn.Mode ∧ (p.conn.Steady → (p'.conn.Steady ↔ p.TriggerOk t)) := by
  cases t with
  | loop a =>
    obtain ⟨c, hc, rfl⟩ := Option.map_eq_some_iff.mp hstep
    exact Conn.step_trigger hm ht hc
  | shutdown =>
    dsimp only [step] at hstep
    split_ifs at hstep <;> cases hstep
    · exact ⟨hm, fun _ => iff_of_true (fun hs => absurd hs StateE.noConfusion) trivial⟩
    · exact ⟨hm, fun hs => iff_of_true hs trivial⟩
  | shutdownInLoop =>
    have hkeeps : Conn.Keeps p.conn p.conn.shutdownInLoop := .of_calm Conn.shutdownInLoop_calm
    rw [step_shutdownInLoop hstep]
    exact ⟨hkeeps.mode hm, fun hs => iff_of_true (hkeeps.steady hs) trivial⟩

/-- In every run without `stopRead`, an open connection has kept read interest and trigger mode
behind every step exactly if all steps meet the condition. -/
theorem steady_iff_of_run {sslCtx enableEt complete high : Bool} {mark errno : ℕ} {ts : List Turn}
    (hread : ∀ t ∈ ts, ¬ t.StopsRead)
    (hrun : run step (create sslCtx enableEt complete high mark errno) ts = some p) :
    Always step (fun p => p.conn.Steady) (create sslCtx enableEt complete high mark errno) ts ↔
      Meets step TriggerOk (create sslCtx enableEt complete high mark errno) ts := by
  refine always_iff_meets (R := fun p : Posted => p.conn.Mode)
    (fun hm ht hstep => (step_trigger hm ht hstep).1)
    (fun hm hs ht hstep => (step_trigger hm ht hstep).2 hs) ?_ ?_ hread hrun
  · exact fun het => absurd het Bool.false_ne_true
  · exact fun hs => absurd hs StateE.noConfusion

/-- A message and its answer, of which a byte waits. -/
def slowEcho : List Turn :=
  [.loop (.connectEstablished []),
    .loop (.handleRead .done ⟨[1], .failed, 0, EAGAIN, 0⟩ [.send [1] ⟨[], .failed, 0, EAGAIN, 0⟩]),
    .loop (.handleWrite .done ⟨[0], .failed, 0, 0, 0⟩)]

/-- In level-triggered mode without SSL. -/
theorem steady_iff_of_run_slowEcho : ∃ p,
    run step (create false false true false 67108864 0) slowEcho = some p ∧
      p.conn.state = .kConnected ∧
      Always step (fun p => p.conn.Steady) (create false false true false 67108864 0) slowEcho := by
  have hrun : ∃ p, run step (create false false true false 67108864 0) slowEcho = some p ∧
      p.conn.state = .kConnected := ⟨_, rfl, rfl⟩
  obtain ⟨p, hrun, hstate⟩ := hrun
  exact ⟨p, hrun, hstate, (steady_iff_of_run (by decide) hrun).mpr (by decide)⟩

/-- The same run in edge-triggered mode loses `EPOLLET` with the last byte. In level-triggered
mode with SSL, read interest is lost with the first message. -/
theorem not_steady_slowEcho :
    (∃ p, run step (create false true true false 67108864 0) slowEcho = some p ∧
      ¬ p.conn.Steady) ∧
    ∃ p, run step (create true false true false 67108864 0)
        [.loop (.connectEstablished []), .loop (.handleRead .done ⟨[], .failed, 0, 0, 0⟩ []),
          .loop (.handleRead .done ⟨[1], .failed, 0, 0, 0⟩ [])] = some p ∧
      ¬ p.conn.Steady := by
  refine ⟨⟨_, rfl, fun h => ?_⟩, _, rfl, fun h => ?_⟩
  · exact Bool.false_ne_true (h rfl).2
  · exact Bool.false_ne_true (h rfl).1

end Posted

end LibWebsocket.Tcp
