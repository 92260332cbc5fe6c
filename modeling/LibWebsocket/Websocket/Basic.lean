import LibWebsocket.Lib.Fallible
import LibWebsocket.Rfc6455.Wire

/-! Data model of `websocket.cc`: the enumerations, the bit field `header_t`, the message
and context classes, failing assertions and the readable bytes of an `IBytesBuffer`. The
build is the default one on a little-endian host: assertions are on, and neither
`LIBWEBSOCKET_DEBUG` nor `_MUDUO_HOSTTONET_TRANSFORM_` is defined. -/
namespace LibWebsocket.Websocket
open Lib Rfc6455

inductive StateE
  | kConnected | kClosed
deriving DecidableEq, Repr

inductive StepE
  | readFrameHeader | readExtendedPayloadlenU16 | readExtendedPayloadlenI64 | readMaskingkey
  | readPayloadData | readExtendedPayloadDataU16 | readExtendedPayloadDataI64
deriving DecidableEq, Repr

inductive FinE
  | frameContinue | frameFinished
deriving DecidableEq, Repr

/-- All sixteen values of the four opcode bits. -/
inductive OpcodeE
  | segmentMessage | textMessage | binaryMessage
  | reserved1 | reserved2 | reserved3 | reserved4 | reserved5
  | closeMessage | pingMessage | pongMessage
  | reserved6 | reserved7 | reserved8 | reserved9 | reserved10
deriving DecidableEq, Repr

abbrev MessageE := OpcodeE

inductive FrameControlE
  | frameInvalid | controlFrame | unControlFrame
deriving DecidableEq, Repr

inductive MessageFrameE
  | unknownFrame | headFrame | middleFrame | tailFrame | headTailFrame
deriving DecidableEq, Repr

namespace OpcodeE

def code : OpcodeE → Fin 16
  | segmentMessage => 0x0 | textMessage => 0x1 | binaryMessage => 0x2
  | reserved1 => 0x3 | reserved2 => 0x4 | reserved3 => 0x5 | reserved4 => 0x6 | reserved5 => 0x7
  | closeMessage => 0x8 | pingMessage => 0x9 | pongMessage => 0xA
  | reserved6 => 0xB | reserved7 => 0xC | reserved8 => 0xD | reserved9 => 0xE | reserved10 => 0xF

def ofCode : Fin 16 → OpcodeE
  | 0x0 => segmentMessage | 0x1 => textMessage | 0x2 => binaryMessage
  | 0x3 => reserved1 | 0x4 => reserved2 | 0x5 => reserved3 | 0x6 => reserved4 | 0x7 => reserved5
  | 0x8 => closeMessage | 0x9 => pingMessage | 0xA => pongMessage
  | 0xB => reserved6 | 0xC => reserved7 | 0xD => reserved8 | 0xE => reserved9 | _ => reserved10

@[simp] theorem ofCode_code (o : OpcodeE) : ofCode o.code = o := by cases o <;> rfl

/-- Text, binary and continuation frames. -/
def IsData (o : OpcodeE) : Prop := o = segmentMessage ∨ o = textMessage ∨ o = binaryMessage

/-- Close, ping and pong frames. -/
def IsControl (o : OpcodeE) : Prop := o = closeMessage ∨ o = pingMessage ∨ o = pongMessage

instance (o : OpcodeE) : Decidable o.IsData := inferInstanceAs (Decidable (_ ∨ _))
instance (o : OpcodeE) : Decidable o.IsControl := inferInstanceAs (Decidable (_ ∨ _))

theorem IsData.not_isControl {o : OpcodeE} (h : o.IsData) : ¬ o.IsControl := by
  rcases h with rfl | rfl | rfl <;> decide

end OpcodeE

instance neZeroPayloadlen : NeZero 128 := ⟨by decide⟩

def FinE.ofBool (b : Bool) : FinE := if b then .frameFinished else .frameContinue

/-- The bit field `header_t`, low bits first: four opcode bits, the reserved bits and FIN
in the first byte, seven length bits and MASK in the second. -/
structure Header where
  opcode : OpcodeE
  rsv3 : Bool
  rsv2 : Bool
  rsv1 : Bool
  fin : FinE
  payloadlen : Fin 128
  mask : Bool
deriving DecidableEq, Repr

namespace Header

def zero : Header := ⟨.segmentMessage, false, false, false, .frameContinue, 0, false⟩

/-- The memory image of the structure. -/
def bytes (h : Header) : Bytes :=
  [UInt8.ofNat (h.opcode.code + 16 * h.rsv3.toNat + 32 * h.rsv2.toNat + 64 * h.rsv1.toNat +
      128 * (if h.fin = .frameFinished then 1 else 0)),
    UInt8.ofNat (h.payloadlen + 128 * h.mask.toNat)]

/-- The structure whose memory image is the two bytes. -/
def ofBytes (b0 b1 : UInt8) : Header where
  opcode := .ofCode (Fin.ofNat 16 b0.toNat)
  rsv3 := b0.toNat / 16 % 2 = 1
  rsv2 := b0.toNat / 32 % 2 = 1
  rsv1 := b0.toNat / 64 % 2 = 1
  fin := .ofBool (128 ≤ b0.toNat)
  payloadlen := Fin.ofNat 128 b1.toNat
  mask := 128 ≤ b1.toNat

end Header

/-- `extended_header_t`. The union of `u16` and `i64` is kept as its eight bytes, of which
`u16` is the low two. -/
structure ExtendedHeader where
  header : Header
  maskingKey : Key
  extendedPayloadlen : UInt64
deriving DecidableEq

namespace ExtendedHeader

def zero : ExtendedHeader := ⟨.zero, fun _ => 0, 0⟩

def setExtendedPayloadlenU16 (h : ExtendedHeader) (n : ℕ) : ExtendedHeader :=
  { h with extendedPayloadlen :=
      .ofNat (h.extendedPayloadlen.toNat / 2 ^ 16 * 2 ^ 16 + n % 2 ^ 16) }

def setExtendedPayloadlenI64 (h : ExtendedHeader) (n : ℕ) : ExtendedHeader :=
  { h with extendedPayloadlen := .ofNat n }

@[simp] theorem header_setExtendedPayloadlenU16 (h : ExtendedHeader) (n : ℕ) :
    (h.setExtendedPayloadlenU16 n).header = h.header := by
  unfold setExtendedPayloadlenU16
  rfl

@[simp] theorem header_setExtendedPayloadlenI64 (h : ExtendedHeader) (n : ℕ) :
    (h.setExtendedPayloadlenI64 n).header = h.header := by
  unfold setExtendedPayloadlenI64
  rfl

def getExtendedPayloadlenU16 (h : ExtendedHeader) : ℕ :=
  if h.header.payloadlen = 126 ∨ h.header.payloadlen = 127 then
    h.extendedPayloadlen.toNat % 2 ^ 16 else 0

/-- The signed result is only ever used as a `size_t`. -/
def getExtendedPayloadlenI64 (h : ExtendedHeader) : ℕ :=
  if h.header.payloadlen = 126 then h.extendedPayloadlen.toNat % 2 ^ 16
  else if h.header.payloadlen = 127 then h.extendedPayloadlen.toNat else 0

end ExtendedHeader

/-- The functions that hold an assertion of the model. -/
inductive Site
  | buffer | validateUncontrolFrameHeader | validateControlFrameHeader
  | packUnmaskUncontrolFrameHeader | packUnmaskControlFrameHeader | packUnmaskControlFrame
  | packUnmaskDataFrameChunk | getFrameControlMessageType | validateMessageFrame
  | updateFrameBodyParseStep | parseFrameReadFrameHeader | parseFrameReadExtendedPayloadlenU16
  | parseFrameReadExtendedPayloadlenI64 | parseFrameReadMaskingkey
  | parseUncontrolFrameReadPayloadData | parseUncontrolFrameReadExtendedPayloadDataU16
  | parseUncontrolFrameReadExtendedPayloadDataI64 | parseControlFrameReadPayloadData
  | parseControlFrameReadExtendedPayloadDataU16 | parseControlFrameReadExtendedPayloadDataI64
  | parseFrame
deriving DecidableEq, Repr

/-- Why a call does not return: a failing assertion kills the process. `diverged` marks a
loop that outruns the fuel of its model. -/
inductive Failure
  | assertion (site : Site)
  | diverged
deriving DecidableEq, Repr

def assert (site : Site) (p : Prop) [Decidable p] : Except Failure Unit :=
  if p then .ok () else .error (.assertion site)

@[simp] theorem assert_pos {site : Site} {p : Prop} [Decidable p] (h : p) :
    assert site p = .ok () := if_pos h

@[simp] theorem assert_neg {site : Site} {p : Prop} [Decidable p] (h : ¬ p) :
    assert site p = .error (.assertion site) := if_neg h

theorem assert_bind {α : Type} (site : Site) (p : Prop) [Decidable p]
    (f : Unit → Except Failure α) :
    (assert site p >>= f) = if p then f () else .error (.assertion site) := by
  unfold assert
  split_ifs <;> rfl

namespace Buffer

def retrieve (buf : Bytes) (len : ℕ) : Except Failure Bytes := do
  assert .buffer (len ≤ buf.length)
  pure (buf.drop len)

/-- The two bytes at the front as the host loads them. -/
def readInt16 (buf : Bytes) : Except Failure (ℕ × Bytes) := do
  assert .buffer (2 ≤ buf.length)
  let rest ← retrieve buf 2
  pure (leNat (buf.take 2), rest)

def readInt64 (buf : Bytes) : Except Failure (ℕ × Bytes) := do
  assert .buffer (8 ≤ buf.length)
  let rest ← retrieve buf 8
  pure (leNat (buf.take 8), rest)

end Buffer

namespace Endian

def hostToNetwork16 (host16 : ℕ) : ℕ := byteSwap 2 host16

def hostToNetwork64 (host64 : ℕ) : ℕ := byteSwap 8 host64

def networkToHost16 (net16 : ℕ) : ℕ := byteSwap 2 net16

def networkToHost64 (net64 : ℕ) : ℕ := byteSwap 8 net64

end Endian

/-- `Message`: the type, the bytes gathered so far and how many of them are unmasked. -/
structure Message where
  messageType : MessageE
  messageBuffer : Bytes
  segmentOffset : ℕ
deriving DecidableEq, Repr

namespace Message

def append (m : Message) (bs : Bytes) : Message :=
  { m with messageBuffer := m.messageBuffer ++ bs }

def resetMessage (m : Message) : Message := { m with messageBuffer := [], segmentOffset := 0 }

/-- The loop starts at `segmentOffset` and indexes the key with the position in the whole
message. -/
def unMaskPayloadData (m : Message) (unMask : Bool) (key : Key) : Message :=
  if unMask ∧ 0 < m.messageBuffer.length ∧ m.segmentOffset < m.messageBuffer.length then
    { m with
      messageBuffer := m.messageBuffer.take m.segmentOffset ++
        maskFrom key m.segmentOffset (m.messageBuffer.drop m.segmentOffset)
      segmentOffset := m.messageBuffer.length }
  else m

end Message

structure Context where
  step : StepE
  state : StateE
  header : ExtendedHeader
  dataMessage : Message
  controlMessage : Message
deriving DecidableEq

namespace Context

/-- The constructor. -/
def create : Context where
  step := .readFrameHeader
  state := .kClosed
  header := .zero
  dataMessage := ⟨.textMessage, [], 0⟩
  controlMessage := ⟨.closeMessage, [], 0⟩

def resetExtendedHeader (c : Context) : Context := { c with header := .zero }

end Context

/-- What a call reports to the owner of the connection. -/
inductive Callback
  | onMessageCallback (body : Bytes) (msgType : MessageE)
  | onClosedCallback (body : Bytes)
  | forceClose
deriving DecidableEq, Repr

/-- The user's callbacks: what each leaves in the message buffer it is handed, given the
calls made before it. They touch nothing else of the context. -/
structure ICallbackHandler where
  onMessageCallback : List Callback → Bytes → MessageE → Bytes
  onClosedCallback : List Callback → Bytes → Bytes

/-- Callbacks that take every byte of the message. -/
def ICallbackHandler.retrieveAll : ICallbackHandler := ⟨fun _ _ _ => [], fun _ _ => []⟩

/-- What `parse_frame` works on: the context, the input buffer and the calls made so far. -/
structure Parser where
  context : Context
  buf : Bytes
  callbacks : List Callback
deriving DecidableEq

end LibWebsocket.Websocket
