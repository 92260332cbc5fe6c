import LibWebsocket.Websocket.Basic

/-! The frame parser of `websocket.cc`, function by function. `Bool` results are the
source's `enough`; a call that returns none there returns the parser only. -/
namespace LibWebsocket.Websocket
open Lib Rfc6455

def getFrameControlMessageType (header : Header) :
    Except Failure (FrameControlE × MessageFrameE) :=
  match header.opcode with
  | .segmentMessage =>
    pure (.unControlFrame, match header.fin with
      | .frameContinue => .middleFrame
      | .frameFinished => .tailFrame)
  | .textMessage | .binaryMessage =>
    pure (.unControlFrame, match header.fin with
      | .frameContinue => .headFrame
      | .frameFinished => .headTailFrame)
  | .closeMessage | .pingMessage | .pongMessage => do
    assert .getFrameControlMessageType (header.fin = .frameFinished)
    pure (.controlFrame, .headTailFrame)
  | _ => .error (.assertion .getFrameControlMessageType)

/-- Reserved opcodes pass unchecked: the source's `switch` has no default. -/
def validateMessageFrame (c : Context) : Except Failure Context :=
  match c.header.header.opcode with
  | .segmentMessage => do
    assert .validateMessageFrame
      (c.dataMessage.messageType = .textMessage ∨ c.dataMessage.messageType = .binaryMessage)
    pure c
  | .textMessage | .binaryMessage => do
    assert .validateMessageFrame (c.dataMessage.messageBuffer.length = 0)
    pure { c with dataMessage.messageType := c.header.header.opcode }
  | .closeMessage | .pingMessage | .pongMessage => do
    assert .validateMessageFrame (c.controlMessage.messageBuffer.length = 0)
    pure { c with controlMessage.messageType := c.header.header.opcode }
  | _ => pure c

def Parser.setWebsocketStep (w : Parser) (step : StepE) : Parser :=
  { w with context.step := step }

/-- The parameters in which the three lengths of payload handler differ: the length class
and the step they assert, and the payload length they read. -/
structure PayloadKind where
  site : Site
  lenClass : Fin 128 → Bool
  step : StepE
  len : ExtendedHeader → ℕ

section Handlers
variable (handler : ICallbackHandler)

/-- The body shared by the data payload handlers. -/
def parseUncontrolFramePayload (k : PayloadKind) (w : Parser) : Except Failure (Bool × Parser) := do
  let h := w.context.header
  assert k.site (k.lenClass h.header.payloadlen)
  assert k.site (w.context.step = k.step)
  if w.buf.length < k.len h then pure (false, w)
  else do
    let m := w.context.dataMessage.append (w.buf.take (k.len h))
    let buf ← Buffer.retrieve w.buf (k.len h)
    let m := m.unMaskPayloadData h.header.mask h.maskingKey
    let w ← match h.header.fin with
      | .frameContinue => pure { w with context.dataMessage := m, buf := buf }
      | .frameFinished => do
        assert k.site h.header.opcode.IsData
        let left := handler.onMessageCallback w.callbacks m.messageBuffer m.messageType
        let done := { m with messageBuffer := left }.resetMessage
        assert k.site (done.messageBuffer.length = 0)
        pure { w with
          context.dataMessage := done
          buf := buf
          callbacks := w.callbacks ++ [.onMessageCallback m.messageBuffer m.messageType] }
    pure (true, { w with context := w.context.resetExtendedHeader }.setWebsocketStep
      .readFrameHeader)

/-- The callback of a finished control frame with the unmasked body `m`, and what it leaves
in the message buffer. A close frame also drops the data gathered so far. -/
def controlFrameCallback (site : Site) (opcode : OpcodeE) (m : Message) (w : Parser) :
    Except Failure (Bytes × Parser) :=
  match opcode with
  | .closeMessage => do
    let left := handler.onClosedCallback w.callbacks m.messageBuffer
    let data := w.context.dataMessage.resetMessage
    assert site (data.messageBuffer.length = 0)
    pure (left, { w with
      context.dataMessage := data
      context.state := .kClosed
      callbacks := w.callbacks ++ [.onClosedCallback m.messageBuffer, .forceClose] })
  | .pingMessage | .pongMessage =>
    pure (handler.onMessageCallback w.callbacks m.messageBuffer m.messageType,
      { w with callbacks := w.callbacks ++ [.onMessageCallback m.messageBuffer m.messageType] })
  | _ => .error (.assertion site)

/-- The body shared by the control payload handlers. -/
def parseControlFramePayload (k : PayloadKind) (w : Parser) : Except Failure (Bool × Parser) := do
  let h := w.context.header
  assert k.site (k.lenClass h.header.payloadlen)
  assert k.site (w.context.step = k.step)
  if w.buf.length < k.len h then pure (false, w)
  else do
    let m := w.context.controlMessage.append (w.buf.take (k.len h))
    let buf ← Buffer.retrieve w.buf (k.len h)
    let m := m.unMaskPayloadData h.header.mask h.maskingKey
    let w ← match h.header.fin with
      | .frameContinue => pure { w with context.controlMessage := m, buf := buf }
      | .frameFinished => do
        let (left, w) ← controlFrameCallback handler k.site h.header.opcode m { w with buf := buf }
        let done := { m with messageBuffer := left }.resetMessage
        assert k.site (done.messageBuffer.length = 0)
        pure { w with context.controlMessage := done }
    pure (true, { w with context := w.context.resetExtendedHeader }.setWebsocketStep
      .readFrameHeader)

def parseUncontrolFrameReadPayloadData : Parser → Except Failure (Bool × Parser) :=
  parseUncontrolFramePayload handler
    ⟨.parseUncontrolFrameReadPayloadData, (· < 126), .readPayloadData, (·.header.payloadlen)⟩

def parseUncontrolFrameReadExtendedPayloadDataU16 : Parser → Except Failure (Bool × Parser) :=
  parseUncontrolFramePayload handler
    ⟨.parseUncontrolFrameReadExtendedPayloadDataU16, (· = 126), .readExtendedPayloadDataU16,
      (·.getExtendedPayloadlenU16)⟩

def parseUncontrolFrameReadExtendedPayloadDataI64 : Parser → Except Failure (Bool × Parser) :=
  parseUncontrolFramePayload handler
    ⟨.parseUncontrolFrameReadExtendedPayloadDataI64, (· = 127), .readExtendedPayloadDataI64,
      (·.getExtendedPayloadlenI64)⟩

def parseControlFrameReadPayloadData : Parser → Except Failure (Bool × Parser) :=
  parseControlFramePayload handler
    ⟨.parseControlFrameReadPayloadData, (· < 126), .readPayloadData, (·.header.payloadlen)⟩

/-- This handler asserts the step of the short payload, not its own. -/
def parseControlFrameReadExtendedPayloadDataU16 : Parser → Except Failure (Bool × Parser) :=
  parseControlFramePayload handler
    ⟨.parseControlFrameReadExtendedPayloadDataU16, (· = 126), .readPayloadData,
      (·.getExtendedPayloadlenU16)⟩

def parseControlFrameReadExtendedPayloadDataI64 : Parser → Except Failure (Bool × Parser) :=
  parseControlFramePayload handler
    ⟨.parseControlFrameReadExtendedPayloadDataI64, (· = 127), .readExtendedPayloadDataI64,
      (·.getExtendedPayloadlenI64)⟩

/-- The handler choices made with a frame type `ty`, for each of the three payload steps. -/
def parsePayloadData (ty : FrameControlE) : Parser → Except Failure (Bool × Parser) :=
  if ty = .unControlFrame then parseUncontrolFrameReadPayloadData handler
  else parseControlFrameReadPayloadData handler

def parseExtendedPayloadDataU16 (ty : FrameControlE) : Parser → Except Failure (Bool × Parser) :=
  if ty = .unControlFrame then parseUncontrolFrameReadExtendedPayloadDataU16 handler
  else parseControlFrameReadExtendedPayloadDataU16 handler

def parseExtendedPayloadDataI64 (ty : FrameControlE) : Parser → Except Failure (Bool × Parser) :=
  if ty = .unControlFrame then parseUncontrolFrameReadExtendedPayloadDataI64 handler
  else parseControlFrameReadExtendedPayloadDataI64 handler

def parseFrameReadMaskingkey (w : Parser) : Except Failure (Bool × Parser) := do
  let header := w.context.header.header
  assert .parseFrameReadMaskingkey header.mask
  assert .parseFrameReadMaskingkey (w.context.step = .readMaskingkey)
  if w.buf.length < 4 then pure (false, w)
  else do
    let buf ← Buffer.retrieve w.buf 4
    let w := { w with context.header.maskingKey := fun i => w.buf.getD i 0, buf := buf }
    if header.payloadlen = 126 then do
      let w := w.setWebsocketStep .readExtendedPayloadDataU16
      let ty ← getFrameControlMessageType header
      assert .parseFrameReadMaskingkey (ty.1 ≠ .frameInvalid)
      parseExtendedPayloadDataU16 handler ty.1 w
    else if header.payloadlen = 127 then do
      let w := w.setWebsocketStep .readExtendedPayloadDataI64
      let ty ← getFrameControlMessageType header
      assert .parseFrameReadMaskingkey (ty.1 ≠ .frameInvalid)
      parseExtendedPayloadDataI64 handler ty.1 w
    else do
      assert .parseFrameReadMaskingkey (header.payloadlen < 126)
      let w := w.setWebsocketStep .readPayloadData
      let ty ← getFrameControlMessageType header
      assert .parseFrameReadMaskingkey (ty.1 ≠ .frameInvalid)
      parsePayloadData handler ty.1 w

end Handlers

/-- The parameters in which the two readers of an extended length differ. -/
structure PayloadlenKind where
  site : Site
  payloadlen : Fin 128
  step : StepE
  width : ℕ
  read : Bytes → Except Failure (ℕ × Bytes)
  networkToHost : ℕ → ℕ
  setExtendedPayloadlen : ExtendedHeader → ℕ → ExtendedHeader
  dataStep : StepE

/-- The body shared by the two readers of an extended length. -/
def parseFrameReadExtendedPayloadlen (k : PayloadlenKind) (w : Parser) :
    Except Failure (Bool × Parser) := do
  let header := w.context.header.header
  assert k.site (header.payloadlen = k.payloadlen)
  assert k.site (w.context.step = k.step)
  if w.buf.length < k.width then pure (false, w)
  else do
    let (net, buf) ← k.read w.buf
    let w := { w with
      context.header := k.setExtendedPayloadlen w.context.header (k.networkToHost net)
      buf := buf }
    if header.mask then pure (true, w.setWebsocketStep .readMaskingkey)
    else pure (true, w.setWebsocketStep k.dataStep)

def PayloadlenKind.u16 : PayloadlenKind where
  site := .parseFrameReadExtendedPayloadlenU16
  payloadlen := 126
  step := .readExtendedPayloadlenU16
  width := 2
  read := Buffer.readInt16
  networkToHost := Endian.networkToHost16
  setExtendedPayloadlen := .setExtendedPayloadlenU16
  dataStep := .readExtendedPayloadDataU16

def PayloadlenKind.i64 : PayloadlenKind where
  site := .parseFrameReadExtendedPayloadlenI64
  payloadlen := 127
  step := .readExtendedPayloadlenI64
  width := 8
  read := Buffer.readInt64
  networkToHost := Endian.networkToHost64
  setExtendedPayloadlen := .setExtendedPayloadlenI64
  dataStep := .readExtendedPayloadDataI64

def parseFrameReadExtendedPayloadlenU16 : Parser → Except Failure (Bool × Parser) :=
  parseFrameReadExtendedPayloadlen .u16

def parseFrameReadExtendedPayloadlenI64 : Parser → Except Failure (Bool × Parser) :=
  parseFrameReadExtendedPayloadlen .i64

section Loop
variable (handler : ICallbackHandler)

/-- The results of the functions called here are dropped, also when bytes are missing. An
unmasked short payload goes to the control handler whatever the opcode. -/
def updateFrameBodyParseStep (w : Parser) : Except Failure Parser := do
  let header := w.context.header.header
  assert .updateFrameBodyParseStep (w.context.step = .readFrameHeader)
  if header.payloadlen = 126 then do
    let (_, w) ← parseFrameReadExtendedPayloadlenU16
      (w.setWebsocketStep .readExtendedPayloadlenU16)
    pure w
  else if header.payloadlen = 127 then do
    let (_, w) ← parseFrameReadExtendedPayloadlenI64
      (w.setWebsocketStep .readExtendedPayloadlenI64)
    pure w
  else do
    assert .updateFrameBodyParseStep (header.payloadlen < 126)
    if header.mask then do
      let (_, w) ← parseFrameReadMaskingkey handler (w.setWebsocketStep .readMaskingkey)
      pure w
    else do
      let (_, w) ← parseControlFrameReadPayloadData handler (w.setWebsocketStep .readPayloadData)
      pure w

def parseFrameReadFrameHeader (w : Parser) : Except Failure (Bool × Parser) := do
  assert .parseFrameReadFrameHeader (w.context.step = .readFrameHeader)
  if w.buf.length < 2 then pure (false, w)
  else do
    let buf ← Buffer.retrieve w.buf 2
    let w := { w with
      context.header.header := .ofBytes (w.buf.getD 0 0) (w.buf.getD 1 0)
      buf := buf }
    let context ← validateMessageFrame w.context
    let w ← updateFrameBodyParseStep handler { w with context := context }
    pure (true, w)

/-- One iteration of the loop, for the frame type `ty` computed before it. -/
def parseFrameStep (ty : FrameControlE) (w : Parser) : Except Failure (Bool × Parser) :=
  match w.context.step with
  | .readFrameHeader => parseFrameReadFrameHeader handler w
  | .readExtendedPayloadlenU16 => parseFrameReadExtendedPayloadlenU16 w
  | .readExtendedPayloadlenI64 => parseFrameReadExtendedPayloadlenI64 w
  | .readMaskingkey => parseFrameReadMaskingkey handler w
  | .readPayloadData => do
    assert .parseFrame (ty ≠ .frameInvalid)
    parsePayloadData handler ty w
  | .readExtendedPayloadDataU16 => do
    assert .parseFrame (ty ≠ .frameInvalid)
    parseExtendedPayloadDataU16 handler ty w
  | .readExtendedPayloadDataI64 => do
    assert .parseFrame (ty ≠ .frameInvalid)
    parseExtendedPayloadDataI64 handler ty w

/-- `while (enough && buf->readableBytes() > 0)`. -/
def parseFrameLoop (ty : FrameControlE) : ℕ → Parser → Except Failure Parser
  | 0, _ => .error .diverged
  | fuel + 1, w =>
    if 0 < w.buf.length then do
      let (enough, w) ← parseFrameStep handler ty w
      if enough then parseFrameLoop ty fuel w else pure w
    else pure w

/-- An iteration that goes on has read a byte, or has left a payload step. -/
def loopFuel (w : Parser) : ℕ := 2 * w.buf.length + 2

def parseFrame (w : Parser) : Except Failure Parser := do
  let ty ← getFrameControlMessageType w.context.header.header
  parseFrameLoop handler ty.1 (loopFuel w) w

/-- Append each chunk to the input buffer and call `parse_frame` after it. -/
def feed (w : Parser) : List Bytes → Except Failure Parser
  | [] => pure w
  | chunk :: chunks => do
    let w ← parseFrame handler { w with buf := w.buf ++ chunk }
    feed w chunks

end Loop

end LibWebsocket.Websocket
