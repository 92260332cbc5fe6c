import LibWebsocket.Websocket.Basic

/-! The packers of `websocket.cc`, which write the unmasked frames of a server. A data
pointer and its length are one byte string here; the packers append to a buffer and return
the header they have written. -/
namespace LibWebsocket.Websocket
open Lib Rfc6455

/-- The two message types of the interface. -/
inductive MessageT
  | tyTextMessage | tyBinaryMessage
deriving DecidableEq, Repr

def validateUncontrolFrameHeader (header : Header) : Except Failure Unit :=
  assert .validateUncontrolFrameHeader
    (OpcodeE.segmentMessage.code ≤ header.opcode.code ∧
      header.opcode.code ≤ OpcodeE.binaryMessage.code)

def validateControlFrameHeader (header : Header) : Except Failure Unit := do
  assert .validateControlFrameHeader (header.payloadlen ≤ 126)
  assert .validateControlFrameHeader (header.fin = .frameFinished)
  assert .validateControlFrameHeader
    (OpcodeE.closeMessage.code ≤ header.opcode.code ∧
      header.opcode.code ≤ OpcodeE.pongMessage.code)

/-- The two header packers differ in their validation. -/
def packUnmaskFrameHeader (site : Site) (validate : Header → Except Failure Unit) (buf : Bytes)
    (opcode : OpcodeE) (fin : FinE) (payloadlen : ℕ) : Except Failure (Header × Bytes) := do
  assert site (payloadlen ≤ 127)
  let header := { Header.zero with
    opcode := opcode
    fin := fin
    payloadlen := Fin.ofNat 128 payloadlen
    mask := false }
  validate header
  pure (header, buf ++ header.bytes)

def packUnmaskUncontrolFrameHeader :=
  packUnmaskFrameHeader .packUnmaskUncontrolFrameHeader validateUncontrolFrameHeader

def packUnmaskControlFrameHeader :=
  packUnmaskFrameHeader .packUnmaskControlFrameHeader validateControlFrameHeader

/-- The conversion of a number to `int16_t` and from there to `int64_t`. -/
def int16ToInt64 (n : ℕ) : ℕ := ((BitVec.ofNat 16 n).signExtend 64).toNat

/-- The length field and the two extended lengths, of which at most one is written. -/
def packPayloadlen (len : ℕ) : ℕ × ℕ × ℕ :=
  if len < 126 then (len, 0, 0)
  else if len ≤ 65535 then (126, Endian.hostToNetwork16 len, 0)
  else (127, 0, int16ToInt64 (Endian.hostToNetwork64 len))

/-- The two frame packers differ in the header packer and in what they do before they write a
64-bit length. -/
def packUnmaskFrame (packHeader : Bytes → OpcodeE → FinE → ℕ → Except Failure (Header × Bytes))
    (beforeI64 : Except Failure Unit) (buf data : Bytes) (opcode : OpcodeE) (fin : FinE) :
    Except Failure (Header × Bytes) := do
  let (payloadlen, extendedPayloadlenU16, extendedPayloadlenI64) := packPayloadlen data.length
  let (header, buf) ← packHeader buf opcode fin payloadlen
  let buf ← if payloadlen = 126 then pure (buf ++ leBytes 2 extendedPayloadlenU16)
    else if payloadlen = 127 then do
      beforeI64
      pure (buf ++ leBytes 8 extendedPayloadlenI64)
    else pure buf
  let buf := if header.mask then buf ++ [0, 0, 0, 0] else buf
  pure (header, buf ++ data)

def packUnmaskUncontrolFrame := packUnmaskFrame packUnmaskUncontrolFrameHeader (pure ())

def packUnmaskControlFrame :=
  packUnmaskFrame packUnmaskControlFrameHeader (.error (.assertion .packUnmaskControlFrame))

/-- The loop of `pack_unmask_data_frame_chunk`; `n` bytes are written and `left` are not. -/
def packUnmaskDataFrameChunkLoop (data : Bytes) (chunksz : ℕ) :
    ℕ → ℕ → ℕ → Bytes → Except Failure Bytes
  | 0, _, left, buf => if 0 < left then .error .diverged else .ok buf
  | fuel + 1, n, left, buf =>
    if 0 < left then
      if left > chunksz then do
        let (_, buf) ← packUnmaskUncontrolFrame buf ((data.drop n).take chunksz)
          .segmentMessage .frameContinue
        packUnmaskDataFrameChunkLoop data chunksz fuel (n + chunksz) (left - chunksz) buf
      else do
        let (_, buf) ← packUnmaskUncontrolFrame buf ((data.drop n).take left)
          .segmentMessage .frameFinished
        assert .packUnmaskDataFrameChunk (left - left = 0)
        pure buf
    else pure buf

/-- Every round but the last writes `chunksz` bytes, so `data.length` rounds are enough unless
`chunksz` is zero. -/
def packUnmaskDataFrameChunk (buf data : Bytes) (messageType : MessageE) (chunksz : ℕ) :
    Except Failure Bytes := do
  assert .packUnmaskDataFrameChunk (data.length > chunksz)
  assert .packUnmaskDataFrameChunk
    (messageType = .textMessage ∨ messageType = .binaryMessage)
  let (_, buf) ← packUnmaskUncontrolFrame buf (data.take chunksz) messageType .frameContinue
  packUnmaskDataFrameChunkLoop data chunksz data.length chunksz (data.length - chunksz) buf

def MessageT.messageType (msgType : MessageT) : MessageE :=
  if msgType = .tyTextMessage then .textMessage else .binaryMessage

def packUnmaskDataFrame (buf data : Bytes) (msgType : MessageT) (chunk : Bool) :
    Except Failure Bytes :=
  if chunk ∧ data.length > 1024 then
    packUnmaskDataFrameChunk buf data msgType.messageType 1024
  else do
    let (_, buf) ← packUnmaskUncontrolFrame buf data msgType.messageType .frameFinished
    pure buf

/-- The packers of the three control messages differ in their opcode. -/
def packUnmaskControl (opcode : OpcodeE) (buf data : Bytes) : Except Failure Bytes := do
  let (_, buf) ← packUnmaskControlFrame buf data opcode .frameFinished
  pure buf

def packUnmaskCloseFrame := packUnmaskControl .closeMessage

def packUnmaskPingFrame := packUnmaskControl .pingMessage

def packUnmaskPongFrame := packUnmaskControl .pongMessage

end LibWebsocket.Websocket
