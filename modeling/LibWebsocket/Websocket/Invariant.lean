import LibWebsocket.Websocket.Refine

/-! What holds of a context between two calls of `parse_frame`, whatever bytes the peer has
sent, and the contexts that wait for a frame or a message. -/
namespace LibWebsocket.Websocket
open Lib Rfc6455

namespace Message

variable {m : Message}

/-- No more than the gathered bytes are unmasked. -/
def Inv (m : Message) : Prop := m.segmentOffset ≤ m.messageBuffer.length

theorem Inv.append_unMask {p : Bytes} {unMask : Bool} {key : Key} (hm : m.Inv) :
    ((m.append p).unMaskPayloadData unMask key).Inv := by
  unfold unMaskPayloadData Inv append at *
  split_ifs
  · simp
    omega
  · simp
    omega

@[simp] theorem resetMessage_inv : m.resetMessage.Inv := Nat.zero_le _

end Message

/-- What holds of every context that a connection reaches. -/
structure Context.Inv (c : Context) : Prop where
  dataType : c.dataMessage.messageType = .textMessage ∨ c.dataMessage.messageType = .binaryMessage
  data : c.dataMessage.Inv
  control : c.controlMessage.Inv

section Invariant
variable {ty : FrameControlE} {c c' : Context} {b b' p : Bytes} {o : List Callback}

theorem Context.Inv.started (hc : c.Inv) : c.started.Inv := by
  unfold Context.started
  split
  case h_1 hop => exact ⟨.inl hop, hc.data, hc.control⟩
  case h_2 hop => exact ⟨.inr hop, hc.data, hc.control⟩
  all_goals exact ⟨hc.dataType, hc.data, hc.control⟩

theorem Context.Inv.deliver (hc : c.Inv) (h : c.deliver ty p = .ok (c', o)) : c'.Inv := by
  have hdata : ((c.dataMessage.append p).unMaskPayloadData c.header.header.mask
      c.header.maskingKey).messageType = c.dataMessage.messageType := by
    unfold Message.unMaskPayloadData
    split_ifs <;> rfl
  unfold Context.deliver Context.deliverData Context.deliverControl at h
  dsimp only at h
  split at h <;> split at h
  · cases h
    exact ⟨hdata ▸ hc.dataType, hc.data.append_unMask, hc.control⟩
  · split at h <;> cases h
    exact ⟨hdata ▸ hc.dataType, Message.resetMessage_inv, hc.control⟩
  · cases h
    exact ⟨hc.dataType, hc.data, hc.control.append_unMask⟩
  · split at h <;> cases h
    · exact ⟨hc.dataType, Message.resetMessage_inv, Message.resetMessage_inv⟩
    · exact ⟨hc.dataType, hc.data, Message.resetMessage_inv⟩
    · exact ⟨hc.dataType, hc.data, Message.resetMessage_inv⟩

theorem Context.Inv.tick (hc : c.Inv) (h : tick ty c b = .ok (some (c', b', o))) : c'.Inv := by
  have hread : (c.headerRead b).Inv := by
    have hs : (c.withHeader b).started.Inv := Context.Inv.started ⟨hc.dataType, hc.data, hc.control⟩
    exact ⟨hs.dataType, hs.data, hs.control⟩
  unfold Websocket.tick at h
  split at h
  case h_1 =>
    obtain ⟨-, -, ⟨-, -, hd, -⟩ | ⟨-, rfl, -, -⟩⟩ := tickFrameHeader_ok h
    · exact hread.deliver hd
    · exact hread
  case h_2 | h_3 =>
    obtain ⟨-, -, -, rfl⟩ := tickPayloadlen_ok h
    exact ⟨hc.dataType, hc.data, hc.control⟩
  case h_4 =>
    obtain ⟨-, -, -, -, -, rfl⟩ := tickMaskingkey_ok h
    exact ⟨hc.dataType, hc.data, hc.control⟩
  all_goals
    obtain ⟨-, -, -, hd, -⟩ := tickPayload_ok h
    exact hc.deliver hd

/-- What holds between two calls. -/
structure Context.Reached (c : Context) : Prop where
  settled : c.Settled
  inv : c.Inv

theorem parseFrame_reached {handler : ICallbackHandler} {w w' : Parser}
    (hw : w.context.Reached) (h : parseFrame handler w = .ok w') : w'.context.Reached := by
  rw [parseFrame_eq handler hw.settled] at h
  split_ifs at h with hty
  rcases hr : (machine w.context.header.header.control).run w.context w.buf with e | ⟨c', b', o⟩
  · rw [hr] at h
    cases h
  · rw [hr] at h
    cases h
    refine ⟨run_settled hw.settled hr, ?_⟩
    exact Consumer.Steps.invariant (P := fun c _ => c.Inv) (machine _)
      (fun hc ht => hc.tick ht) (Consumer.run_eq_ok_iff _ |>.mp hr).1 hw.inv

theorem feed_reached {handler : ICallbackHandler} {w w' : Parser} (chunks : List Bytes)
    (hw : w.context.Reached) (h : feed handler w chunks = .ok w') : w'.context.Reached := by
  induction chunks generalizing w with
  | nil =>
    cases h
    exact hw
  | cons chunk chunks ih =>
    rw [feed] at h
    cases hr : parseFrame handler { w with buf := w.buf ++ chunk } with
    | error e =>
      rw [hr] at h
      cases h
    | ok w₁ =>
      rw [hr] at h
      have hw₁ : w₁.context.Reached :=
        parseFrame_reached (w := { w with buf := w.buf ++ chunk }) hw hr
      exact ih hw₁ h

end Invariant

/-- A context between two frames. -/
structure Context.Boundary (c : Context) : Prop where
  step : c.step = .readFrameHeader
  header : c.header = .zero

theorem Context.Boundary.settled {c : Context} (hc : c.Boundary) : c.Settled := by
  refine ⟨?_, fun hp => absurd hp (by rw [hc.step]; decide)⟩
  rw [Context.Shape, hc.step]
  exact hc.header

/-- A connected context that waits for the first frame of a message. -/
structure Context.Idle (c : Context) : Prop extends c.Boundary, c.Inv where
  state : c.state = .kConnected
  dataBuffer : c.dataMessage.messageBuffer = []
  controlBuffer : c.controlMessage.messageBuffer = []

/-- The context of a connection whose handshake is done. -/
def Context.connected : Context := { Context.create with state := .kConnected }

theorem Context.connected_idle : Context.connected.Idle :=
  ⟨⟨rfl, rfl⟩, ⟨.inl rfl, Nat.le_refl 0, Nat.le_refl 0⟩, rfl, rfl, rfl⟩

theorem Context.Idle.reached {c : Context} (hc : c.Idle) : c.Reached :=
  ⟨hc.toBoundary.settled, hc.toInv⟩

end LibWebsocket.Websocket
