import LibWebsocket.Websocket.Parse

/-! What a complete payload does to a context. The payload handlers of the parser check
their step and length class, wait for the payload and then deliver it; what the user's
callbacks leave in the message buffer has no effect, because it is reset after them. -/
namespace LibWebsocket.Websocket
open Lib Rfc6455

namespace Context

/-- Back to the start of a frame. -/
def endFrame (c : Context) : Context := { c with header := .zero, step := .readFrameHeader }

/-- The conditions `validate_message_frame` asserts before a frame with opcode `op`. -/
def Starts (c : Context) (op : OpcodeE) : Prop :=
  (op = .segmentMessage →
    c.dataMessage.messageType = .textMessage ∨ c.dataMessage.messageType = .binaryMessage) ∧
  (op = .textMessage ∨ op = .binaryMessage → c.dataMessage.messageBuffer = []) ∧
  (op.IsControl → c.controlMessage.messageBuffer = [])

instance (c : Context) (op : OpcodeE) : Decidable (c.Starts op) :=
  inferInstanceAs (Decidable (_ ∧ _))

/-- The header just read may start a frame. -/
def Startable (c : Context) : Prop := c.Starts c.header.header.opcode

instance (c : Context) : Decidable c.Startable := inferInstanceAs (Decidable (c.Starts _))

/-- The message types after a header that starts a frame. -/
def started (c : Context) : Context :=
  match c.header.header.opcode with
  | .textMessage | .binaryMessage =>
    { c with dataMessage.messageType := c.header.header.opcode }
  | .closeMessage | .pingMessage | .pongMessage =>
    { c with controlMessage.messageType := c.header.header.opcode }
  | _ => c

@[simp] theorem started_step (c : Context) : c.started.step = c.step := by
  unfold started; split <;> rfl

@[simp] theorem started_header (c : Context) : c.started.header = c.header := by
  unfold started; split <;> rfl

theorem validateMessageFrame_eq (c : Context) :
    validateMessageFrame c =
      if c.Startable then .ok c.started else .error (.assertion .validateMessageFrame) := by
  unfold validateMessageFrame
  split <;> simp_all [Startable, Starts, started, OpcodeE.IsControl, assert_bind]

def deliverData (site : Site) (c : Context) (p : Bytes) :
    Except Failure (Context × List Callback) :=
  let m := (c.dataMessage.append p).unMaskPayloadData c.header.header.mask c.header.maskingKey
  match c.header.header.fin with
  | .frameContinue => .ok ({ c with dataMessage := m }.endFrame, [])
  | .frameFinished =>
    if c.header.header.opcode.IsData then
      .ok ({ c with dataMessage := m.resetMessage }.endFrame,
        [.onMessageCallback m.messageBuffer m.messageType])
    else .error (.assertion site)

def deliverControl (site : Site) (c : Context) (p : Bytes) :
    Except Failure (Context × List Callback) :=
  let m := (c.controlMessage.append p).unMaskPayloadData c.header.header.mask c.header.maskingKey
  match c.header.header.fin with
  | .frameContinue => .ok ({ c with controlMessage := m }.endFrame, [])
  | .frameFinished =>
    match c.header.header.opcode with
    | .closeMessage =>
      .ok ({ c with
          dataMessage := c.dataMessage.resetMessage
          controlMessage := m.resetMessage
          state := .kClosed }.endFrame,
        [.onClosedCallback m.messageBuffer, .forceClose])
    | .pingMessage | .pongMessage =>
      .ok ({ c with controlMessage := m.resetMessage }.endFrame,
        [.onMessageCallback m.messageBuffer m.messageType])
    | _ => .error (.assertion site)

end Context

/-- A handler's answer once the payload `w.buf.take n` is delivered. -/
def Parser.delivered (w : Parser) (n : ℕ) (r : Context × List Callback) : Bool × Parser :=
  (true, ⟨r.1, w.buf.drop n, w.callbacks ++ r.2⟩)

theorem Buffer.retrieve_of_le {buf : Bytes} {n : ℕ} (h : n ≤ buf.length) :
    Buffer.retrieve buf n = .ok (buf.drop n) := by
  simp [Buffer.retrieve, h]

section
variable (handler : ICallbackHandler) (k : PayloadKind) (w : Parser)

theorem parseUncontrolFramePayload_eq (hc : k.lenClass w.context.header.header.payloadlen)
    (hs : w.context.step = k.step) :
    parseUncontrolFramePayload handler k w =
      if w.buf.length < k.len w.context.header then .ok (false, w)
      else (w.context.deliverData k.site (w.buf.take (k.len w.context.header))).map
        (w.delivered (k.len w.context.header)) := by
  unfold parseUncontrolFramePayload
  simp only [assert_pos hc, assert_pos hs, ok_bind]
  split_ifs with hlen
  · rfl
  · rw [Buffer.retrieve_of_le (by omega)]
    simp only [ok_bind, Context.deliverData]
    cases w.context.header.header.fin with
    | frameContinue => simp [Except.map, Parser.delivered]; rfl
    | frameFinished =>
      by_cases hop : w.context.header.header.opcode.IsData
      · simp only [hop, if_true]
        rfl
      · simp only [hop, if_false]
        rfl

theorem parseControlFramePayload_eq (hc : k.lenClass w.context.header.header.payloadlen)
    (hs : w.context.step = k.step) :
    parseControlFramePayload handler k w =
      if w.buf.length < k.len w.context.header then .ok (false, w)
      else (w.context.deliverControl k.site (w.buf.take (k.len w.context.header))).map
        (w.delivered (k.len w.context.header)) := by
  unfold parseControlFramePayload
  simp only [assert_pos hc, assert_pos hs, ok_bind]
  split_ifs with hlen
  · rfl
  · rw [Buffer.retrieve_of_le (by omega)]
    simp only [ok_bind, Context.deliverControl]
    cases w.context.header.header.fin with
    | frameContinue => simp [Except.map, Parser.delivered]; rfl
    | frameFinished =>
      cases w.context.header.header.opcode <;> rfl

end

end LibWebsocket.Websocket
