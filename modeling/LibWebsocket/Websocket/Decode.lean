import LibWebsocket.Websocket.Stream

/-! Unfragmented client frames. Each one is delivered with its own opcode and payload, and
the context is idle after it. -/
namespace LibWebsocket.Websocket
open Lib Rfc6455

/-- A masked frame that is a message of its own. The length of a data frame may be written
in any form that holds it. -/
def Unfragmented (f : WireFrame) : Prop :=
  f.key.isSome ∧ f.fin = true ∧
    ((headerOf f).opcode = .textMessage ∨ (headerOf f).opcode = .binaryMessage ∨
      ((headerOf f).opcode = .pingMessage ∨ (headerOf f).opcode = .pongMessage) ∧ f.form = .bits7)

instance (f : WireFrame) : Decidable (Unfragmented f) := inferInstanceAs (Decidable (_ ∧ _))

section
variable (ty : FrameControlE) {c : Context} {f : WireFrame}

theorem consume_unfragmented_data (hc : c.Idle) (hk : f.key.isSome) (hfin : f.fin = true)
    (hop : (headerOf f).opcode = .textMessage ∨ (headerOf f).opcode = .binaryMessage) :
    ∃ c', c'.Idle ∧ c.consume ty f = .ok (c', [frameCallback f]) := by
  have hdata : (headerOf f).opcode.IsData := .inr hop
  have hs : c.Starts (headerOf f).opcode := by
    rcases hop with h | h <;> simp [Context.Starts, h, hc.dataBuffer, OpcodeE.IsControl]
  have hstart : c.dataMessage.startData (headerOf f).opcode =
      ⟨(headerOf f).opcode, [], 0⟩ := by
    have hoff : c.dataMessage.segmentOffset = 0 := by
      simpa [Message.Inv, hc.dataBuffer] using hc.data
    simp [Message.startData, hop, hc.dataBuffer, hoff]
  obtain ⟨off, habsorb⟩ : ∃ off, Message.absorb ⟨(headerOf f).opcode, [], 0⟩ f =
      ⟨(headerOf f).opcode, f.payload, off⟩ := Message.absorb_empty rfl rfl
  have hconsume := consume_data hc.toBoundary hdata (frameType_masked_data ty hk hdata)
  rw [if_neg (not_not.mpr hs), hstart, habsorb] at hconsume
  simp only [hfin, if_true] at hconsume
  refine ⟨_, ?_, hconsume⟩
  exact ⟨⟨hc.step, hc.header⟩, ⟨hop, Message.resetMessage_inv, hc.control⟩, hc.state, rfl,
    hc.controlBuffer⟩

theorem consume_unfragmented (hc : c.Idle) (hf : Unfragmented f) :
    ∃ c', c'.Idle ∧ c.consume ty f = .ok (c', [frameCallback f]) := by
  obtain ⟨hk, hfin, hop⟩ := hf
  rcases hop with htext | hbinary | ⟨hcontrol, hform⟩
  · exact consume_unfragmented_data ty hc hk hfin (.inl htext)
  · exact consume_unfragmented_data ty hc hk hfin (.inr hbinary)
  · refine ⟨_, ?_, consume_pingPong ty hc.toBoundary hc.control hc.controlBuffer hk hfin hcontrol
      (by simp [hform])⟩
    exact ⟨⟨hc.step, hc.header⟩, ⟨hc.dataType, hc.data, Nat.le_refl 0⟩, hc.state, hc.dataBuffer,
      rfl⟩

theorem consumeAll_unfragmented (fs : List WireFrame) (hc : c.Idle)
    (hfs : ∀ f ∈ fs, Unfragmented f) :
    ∃ c', c'.Idle ∧ c.consumeAll ty fs = .ok (c', fs.map frameCallback) := by
  induction fs generalizing c with
  | nil => exact ⟨c, hc, rfl⟩
  | cons f fs ih =>
    obtain ⟨c₁, hc₁, h₁⟩ := consume_unfragmented ty hc (hfs f (by simp))
    obtain ⟨c₂, hc₂, h₂⟩ := ih hc₁ fun g hg => hfs g (by simp [hg])
    exact ⟨c₂, hc₂, consumeAll_cons_ok.mpr ⟨c₁, _, _, h₁, h₂, rfl⟩⟩

end

/-- One call decodes any number of unfragmented frames: one callback for each, in order,
with its opcode and payload; nothing is left unread and the context is idle again. -/
theorem parseFrame_unfragmented (handler : ICallbackHandler) (c : Context) (hc : c.Idle)
    (log : List Callback) (fs : List WireFrame) (hfs : ∀ f ∈ fs, Unfragmented f) :
    ∃ c', c'.Idle ∧ parseFrame handler ⟨c, stream fs, log⟩ =
      .ok ⟨c', [], log ++ fs.map fun f => .onMessageCallback f.payload (.ofCode f.opcode)⟩ := by
  obtain ⟨c', hidle, h⟩ := consumeAll_unfragmented .unControlFrame fs hc hfs
  refine ⟨c', hidle, ?_⟩
  rw [parseFrame_stream handler hc.toBoundary fs fun f hf => prompt_of_masked (hfs f hf).1, h]
  rfl

/-- A text frame with a 16-bit length and a ping, behind each other. -/
theorem parseFrame_unfragmented_text_ping :
    ∃ c', c'.Idle ∧ parseFrame .retrieveAll ⟨.connected, stream
        [⟨⟨true, 1, some ![0x37, 0xfa, 0x21, 0x3d], [0x48, 0x69]⟩, .bits16, by decide⟩,
          ⟨⟨true, 9, some ![1, 2, 3, 4], [0x21]⟩, .bits7, by decide⟩], []⟩ =
      .ok ⟨c', [], [.onMessageCallback [0x48, 0x69] .textMessage,
        .onMessageCallback [0x21] .pingMessage]⟩ :=
  parseFrame_unfragmented .retrieveAll .connected Context.connected_idle [] _ (by decide)

end LibWebsocket.Websocket
