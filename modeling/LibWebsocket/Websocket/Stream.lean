import LibWebsocket.Websocket.Frame

/-! Whole streams of frames: one call of `parse_frame` on complete frames folds the effect
of one frame over the stream. -/
namespace LibWebsocket.Websocket
open Lib Rfc6455

section
variable {ty : FrameControlE} {c c' : Context} {f : WireFrame} {o : List Callback}

theorem consume_boundary (h : c.consume ty f = .ok (c', o)) : c'.Boundary := by
  unfold Context.consume at h
  split_ifs at h
  obtain ⟨hstep, hheader⟩ := deliver_step h
  exact ⟨hstep, hheader⟩

theorem consume_ok (h : c.consume ty f = .ok (c', o)) :
    c.Starts (headerOf f).opcode ∧ (f.key.isSome → (headerOf f).TypeOk) ∧
      ¬ (headerOf f).BadControl (frameType ty f) := by
  unfold Context.consume at h
  split_ifs at h with hs hty hbad
  exact ⟨hs, fun hk => by_contra fun h => hty ⟨hk, h⟩, hbad⟩

/-- The effects of the frames of a stream, one after the other. -/
def Context.consumeAll (ty : FrameControlE) (c : Context) :
    List WireFrame → Except Failure (Context × List Callback)
  | [] => .ok (c, [])
  | f :: fs => do
    let r ← c.consume ty f
    (r.1.consumeAll ty fs).map fun r' => (r'.1, r.2 ++ r'.2)

theorem consumeAll_cons_ok {fs : List WireFrame} :
    c.consumeAll ty (f :: fs) = .ok (c', o) ↔ ∃ c₁ o₁ o₂, c.consume ty f = .ok (c₁, o₁) ∧
      c₁.consumeAll ty fs = .ok (c', o₂) ∧ o = o₁ ++ o₂ := by
  rw [Context.consumeAll]
  rcases c.consume ty f with e | ⟨c₁, o₁⟩
  · simp
  · rcases hr : c₁.consumeAll ty fs with e | ⟨c₂, o₂⟩
    · simp [hr, Except.map]
    · simp only [ok_bind, hr, Except.map, Except.ok.injEq, Prod.mk.injEq]
      constructor
      · rintro ⟨rfl, rfl⟩
        exact ⟨c₁, o₁, o₂, ⟨rfl, rfl⟩, hr, rfl⟩
      · rintro ⟨c₃, o₃, o₄, ⟨rfl, rfl⟩, h, rfl⟩
        rw [hr] at h
        cases h
        exact ⟨rfl, rfl⟩

theorem consumeAll_singleton : c.consumeAll ty [f] = c.consume ty f := by
  rw [Context.consumeAll]
  rcases c.consume ty f with e | ⟨c₁, o₁⟩
  · rfl
  · simp [Context.consumeAll, Except.map]

theorem consumeAll_cons_of_silent {fs : List WireFrame} (h : c.consume ty f = .ok (c', [])) :
    c.consumeAll ty (f :: fs) = c'.consumeAll ty fs := by
  rw [Context.consumeAll, h]
  cases hr : c'.consumeAll ty fs <;> simp [hr, Except.map]

theorem consumeAll_boundary {fs : List WireFrame} (hc : c.Boundary)
    (h : c.consumeAll ty fs = .ok (c', o)) : c'.Boundary := by
  induction fs generalizing c o with
  | nil =>
    cases h
    exact hc
  | cons f fs ih =>
    obtain ⟨c₁, o₁, o₂, h₁, h₂, -⟩ := consumeAll_cons_ok.mp h
    exact ih (consume_boundary h₁) h₂

/-- The parser finishes the frame as soon as its last byte is there. -/
def Prompt (f : WireFrame) : Prop := f.key = none → f.form ≠ .bits7 → f.payload ≠ []

theorem prompt_of_masked (h : f.key.isSome) : Prompt f := fun hk => by simp [hk] at h

theorem run_stream (ty : FrameControlE) (hc : c.Boundary) (fs : List WireFrame)
    (hfs : ∀ f ∈ fs, Prompt f) (rest : Bytes) :
    (machine ty).run c (stream fs ++ rest) =
      (c.consumeAll ty fs).bind fun r =>
        ((machine ty).run r.1 rest).map (Consumer.Rest.after r.2) := by
  induction fs generalizing c with
  | nil =>
    simp only [stream_nil, List.nil_append, Context.consumeAll, Except.bind]
    cases (machine ty).run c rest <;> rfl
  | cons f fs ih =>
    have hf : f.key = none → f.form ≠ .bits7 → f.payload ++ (stream fs ++ rest) ≠ [] := by
      intro hk hform
      simp [hfs f (by simp) hk hform]
    rw [stream_cons, List.append_assoc, run_wire hc hf, Context.consumeAll]
    cases hr : c.consume ty f with
    | error e => rfl
    | ok r =>
      simp only [Except.bind, ok_bind]
      rw [ih (consume_boundary hr) fun g hg => hfs g (by simp [hg])]
      cases r.1.consumeAll ty fs with
      | error e => rfl
      | ok r' =>
        simp only [Except.bind, Except.map]
        cases (machine ty).run r'.1 rest <;> simp

end

namespace Message

/-- Append the payload of a frame and unmask what is new. -/
def absorb (m : Message) (f : WireFrame) : Message :=
  (m.append (applyKey f.key f.payload)).unMaskPayloadData f.key.isSome (f.key.getD fun _ => 0)

variable {m : Message} {f : WireFrame}

@[simp] theorem absorb_messageType : (m.absorb f).messageType = m.messageType := by
  unfold absorb unMaskPayloadData
  split_ifs <;> rfl

theorem absorb_eq_nil_iff :
    (m.absorb f).messageBuffer = [] ↔ m.messageBuffer = [] ∧ f.payload = [] := by
  have hlen : (m.absorb f).messageBuffer.length = m.messageBuffer.length + f.payload.length := by
    unfold absorb unMaskPayloadData append
    split_ifs with h
    · simp only [List.length_append, length_applyKey] at h
      simp
      omega
    · simp
  simp only [← List.length_eq_zero_iff, hlen]
  omega

theorem absorb_unmasked (hk : f.key = none) : m.absorb f = m.append f.payload := by
  simp [absorb, unMaskPayloadData, hk, applyKey]

/-- The key is indexed with the position in the whole message, where the sender has used
the position in the frame. -/
theorem absorb_masked {k : Key} (hk : f.key = some k)
    (hm : m.segmentOffset = m.messageBuffer.length) :
    m.absorb f = ⟨m.messageType,
      m.messageBuffer ++ maskFrom k m.messageBuffer.length (maskFrom k 0 f.payload),
      m.messageBuffer.length + f.payload.length⟩ := by
  obtain ⟨t, buf, off⟩ := m
  simp only at hm
  subst hm
  cases hp : f.payload with
  | nil => simp [absorb, unMaskPayloadData, append, hk, hp, applyKey]
  | cons x xs => simp [absorb, unMaskPayloadData, append, hk, hp, applyKey]

/-- A message that starts with the frame is unmasked as it was masked. -/
theorem absorb_empty (hb : m.messageBuffer = []) (ho : m.segmentOffset = 0) :
    ∃ off, m.absorb f = ⟨m.messageType, f.payload, off⟩ := by
  cases hk : f.key with
  | none => exact ⟨0, by simp [absorb_unmasked hk, append, hb, ho]⟩
  | some k =>
    have hm : m.segmentOffset = m.messageBuffer.length := by simp [hb, ho]
    exact ⟨f.payload.length, by simp [absorb_masked hk hm, hb]⟩

end Message

section Effect
variable {ty : FrameControlE} {c : Context} {f : WireFrame}

/-- A complete frame that reaches the data handler. -/
theorem consume_data (hc : c.Boundary) (hop : (headerOf f).opcode.IsData)
    (hty : frameType ty f = .unControlFrame) :
    c.consume ty f =
      if ¬ c.Starts (headerOf f).opcode then .error (.assertion .validateMessageFrame)
      else
        let m := (c.dataMessage.startData (headerOf f).opcode).absorb f
        .ok (if f.fin then ({ c with dataMessage := m.resetMessage },
            [.onMessageCallback m.messageBuffer m.messageType])
          else ({ c with dataMessage := m }, [])) := by
  have hcontrol : c.controlMessage.startControl (headerOf f).opcode = c.controlMessage := by
    simp [Message.startControl, hop.not_isControl]
  have hloaded : (loadedHeader f).header = headerOf f := rfl
  unfold Context.consume
  by_cases hs : c.Starts (headerOf f).opcode
  · rw [if_neg (not_not.mpr hs), if_neg (not_not.mpr hs), if_neg (fun h => h.2 (.inl hop)),
      if_neg (fun h => h.1 hty), Context.deliver, if_pos hty]
    obtain ⟨hstep, hheader⟩ := hc
    obtain ⟨step, state, header, data, control⟩ := c
    simp only at hstep hheader hcontrol
    subst hstep hheader
    cases hfin : f.fin with
    | true =>
      have hfinished : (headerOf f).fin = .frameFinished := by simp [headerOf, hfin, FinE.ofBool]
      simp only [Context.deliverData, Context.loaded, Context.inFrame, hloaded, hfinished, hop,
        hcontrol]
      rfl
    | false =>
      have hcontinue : (headerOf f).fin = .frameContinue := by simp [headerOf, hfin, FinE.ofBool]
      simp only [Context.deliverData, Context.loaded, Context.inFrame, hloaded, hcontinue,
        hcontrol]
      rfl
  · rw [if_pos hs, if_pos hs]

/-- A complete control frame that reaches the control handler. -/
theorem consume_control (hc : c.Boundary) (hinv : c.controlMessage.Inv)
    (hop : (headerOf f).opcode.IsControl) (hfin : f.fin = true)
    (hty : frameType ty f ≠ .unControlFrame) (hform : f.form ≠ .bits16) :
    c.consume ty f =
      if c.controlMessage.messageBuffer ≠ [] then .error (.assertion .validateMessageFrame)
      else .ok (if (headerOf f).opcode = .closeMessage then
          ({ c with
              state := .kClosed
              dataMessage := c.dataMessage.resetMessage
              controlMessage := ⟨.closeMessage, [], 0⟩ },
            [.onClosedCallback f.payload, .forceClose])
        else ({ c with controlMessage := ⟨(headerOf f).opcode, [], 0⟩ },
          [.onMessageCallback f.payload (headerOf f).opcode])) := by
  have hfinished : (headerOf f).fin = .frameFinished := by simp [headerOf, hfin, FinE.ofBool]
  have hbad : ¬ (headerOf f).BadControl (frameType ty f) :=
    fun h => hform ((payloadlen_eq_126_iff f).mp h.2)
  have hloaded : (loadedHeader f).header = headerOf f := rfl
  have hdata : c.dataMessage.startData (headerOf f).opcode = c.dataMessage := by
    rcases hop with h | h | h <;> simp [Message.startData, h]
  have hcontrol : c.controlMessage.startControl (headerOf f).opcode =
      { c.controlMessage with messageType := (headerOf f).opcode } := if_pos hop
  unfold Context.consume
  by_cases hb : c.controlMessage.messageBuffer = []
  · have hs : c.Starts (headerOf f).opcode := by
      rcases hop with h | h | h <;> simp [Context.Starts, h, hb]
    have hoff : c.controlMessage.segmentOffset = 0 := by
      rw [Message.Inv, hb] at hinv
      simpa using hinv
    rw [if_neg (not_not.mpr hs), if_neg (not_not.mpr hb),
      if_neg (fun h => h.2 (.inr ⟨hop, hfinished⟩)), if_neg hbad, Context.deliver, if_neg hty]
    obtain ⟨hstep, hheader⟩ := hc
    obtain ⟨step, state, header, data, ⟨mtype, buf, off⟩⟩ := c
    simp only at hstep hheader hb hoff hdata
    subst hstep hheader hb hoff
    obtain ⟨off, habsorb⟩ : ∃ off, (Message.append ⟨(headerOf f).opcode, [], 0⟩
        (applyKey f.key f.payload)).unMaskPayloadData (headerOf f).mask
        (loadedHeader f).maskingKey = ⟨(headerOf f).opcode, f.payload, off⟩ :=
      Message.absorb_empty rfl rfl
    simp only [Context.deliverControl, Context.loaded, Context.inFrame, hloaded, hfinished,
      hdata, hcontrol, habsorb]
    rcases hop with h | h | h <;> simp [h, Context.endFrame, Message.resetMessage]
  · have hs : ¬ c.Starts (headerOf f).opcode := fun h => hb (h.2.2 hop)
    rw [if_pos hs, if_pos hb]

end Effect

section Call
variable {c : Context} {f : WireFrame}

theorem parseFrame_boundary (handler : ICallbackHandler) (hc : c.Boundary) (b : Bytes)
    (log : List Callback) :
    parseFrame handler ⟨c, b, log⟩ =
      ((machine .unControlFrame).run c b).map (Parser.ofRest ⟨c, b, log⟩) := by
  have hty : c.header.header.TypeOk := by
    rw [hc.header]
    decide
  have hcontrol : c.header.header.control = .unControlFrame := by
    rw [hc.header]
    rfl
  rw [parseFrame_eq handler hc.settled]
  simp only [if_pos hty, hcontrol]

theorem run_boundary_nil (ty : FrameControlE) (hc : c.Boundary) :
    (machine ty).run c [] = .ok (c, [], []) :=
  (machine ty).run_of_wait (tick_nil hc.settled)

/-- One call on complete frames. -/
theorem parseFrame_stream (handler : ICallbackHandler) (hc : c.Boundary) (fs : List WireFrame)
    (hfs : ∀ f ∈ fs, Prompt f) (log : List Callback) :
    parseFrame handler ⟨c, stream fs, log⟩ =
      (c.consumeAll .unControlFrame fs).map fun r => ⟨r.1, [], log ++ r.2⟩ := by
  have hrun := run_stream .unControlFrame hc fs hfs []
  rw [List.append_nil] at hrun
  rw [parseFrame_boundary handler hc, hrun]
  cases hr : c.consumeAll .unControlFrame fs with
  | error e => rfl
  | ok r =>
    simp only [Except.bind, run_boundary_nil _ (consumeAll_boundary hc hr)]
    simp [Except.map, Parser.ofRest, Consumer.Rest.after]

theorem frameType_masked (ty : FrameControlE) (hk : f.key.isSome) :
    frameType ty f = (headerOf f).control := by
  have hshort : ¬ (headerOf f).ShortUnmasked := by
    rw [shortUnmasked_iff]
    rintro ⟨-, h⟩
    simp [h] at hk
  rw [frameType, if_neg hshort, Header.handlerType, headerOf_mask, if_pos hk]

theorem frameType_masked_data (ty : FrameControlE) (hk : f.key.isSome)
    (hop : (headerOf f).opcode.IsData) : frameType ty f = .unControlFrame := by
  rw [frameType_masked ty hk, Header.control, if_pos hop]

theorem frameType_masked_control (ty : FrameControlE) (hk : f.key.isSome)
    (hop : (headerOf f).opcode.IsControl) : frameType ty f ≠ .unControlFrame := by
  rw [frameType_masked ty hk, Header.control, if_neg (fun h => h.not_isControl hop)]
  decide

/-- The callback that a frame announces. -/
def frameCallback (f : WireFrame) : Callback :=
  .onMessageCallback f.payload (headerOf f).opcode

theorem consume_pingPong (ty : FrameControlE) (hc : c.Boundary) (hinv : c.controlMessage.Inv)
    (hb : c.controlMessage.messageBuffer = []) (hk : f.key.isSome) (hfin : f.fin = true)
    (hop : (headerOf f).opcode = .pingMessage ∨ (headerOf f).opcode = .pongMessage)
    (hform : f.form ≠ .bits16) :
    c.consume ty f = .ok ({ c with controlMessage := ⟨(headerOf f).opcode, [], 0⟩ },
      [frameCallback f]) := by
  have hcontrol : (headerOf f).opcode.IsControl := .inr hop
  have hclose : (headerOf f).opcode ≠ .closeMessage := by
    rcases hop with h | h <;> simp [h]
  rw [consume_control hc hinv hcontrol hfin (frameType_masked_control ty hk hcontrol) hform,
    if_neg (not_not.mpr hb), if_neg hclose]
  rfl

theorem Context.Inv.consume {ty : FrameControlE} {c' : Context} {o : List Callback} (hc : c.Inv)
    (h : c.consume ty f = .ok (c', o)) : c'.Inv := by
  have hloaded : (c.loaded f).Inv := by
    have hs := Context.Inv.started (c := { c with header := loadedHeader f })
      ⟨hc.dataType, hc.data, hc.control⟩
    rw [Context.started_eq] at hs
    exact ⟨hs.dataType, hs.data, hs.control⟩
  unfold Context.consume at h
  split_ifs at h
  exact hloaded.deliver h

end Call

end LibWebsocket.Websocket
