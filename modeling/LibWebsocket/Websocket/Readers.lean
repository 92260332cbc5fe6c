import LibWebsocket.Websocket.Machine

/-! The field readers of `parse_frame` in closed form: what each one waits for, asserts and
stores, with the reader it calls next. -/
namespace LibWebsocket.Websocket
open Lib Rfc6455

/-- The parser once the masking key is read. -/
def Parser.keyRead (w : Parser) : Parser :=
  ⟨w.context.withKey w.buf, w.buf.drop 4, w.callbacks⟩

@[simp] theorem Parser.keyRead_header (w : Parser) :
    w.keyRead.context.header.header = w.context.header.header := rfl

section Readers
variable (handler : ICallbackHandler) (w : Parser)

/-- The handler of a payload of length class `n`. -/
def payloadHandler (ty : FrameControlE) (n : Fin 128) : Parser → Except Failure (Bool × Parser) :=
  if n = 126 then parseExtendedPayloadDataU16 handler ty
  else if n = 127 then parseExtendedPayloadDataI64 handler ty
  else parsePayloadData handler ty

theorem payloadHandler_eq (ty : FrameControlE)
    (hs : w.context.step = payloadStep w.context.header.header.payloadlen) :
    payloadHandler handler ty w.context.header.header.payloadlen w =
      if w.context.header.header.BadControl ty then
        .error (.assertion .parseControlFrameReadExtendedPayloadDataU16)
      else if w.buf.length < w.context.header.getRealDatalen then .ok (false, w)
      else (w.context.deliver ty (w.buf.take w.context.header.getRealDatalen)).map
        (w.delivered w.context.header.getRealDatalen) := by
  by_cases h126 : w.context.header.header.payloadlen = 126
  · by_cases ht : ty = .unControlFrame
    · rw [payloadHandler, if_pos h126, parseExtendedPayloadDataU16, if_pos ht,
        parseUncontrolFrameReadExtendedPayloadDataU16,
        parseUncontrolFramePayload_eq handler _ w (by simp [h126]) (by simp [hs, h126, payloadStep])]
      simp [Header.BadControl, ExtendedHeader.getRealDatalen, Context.deliver, ht,
        ExtendedHeader.getExtendedPayloadlenU16, dataSite, h126]
    · rw [payloadHandler, if_pos h126, parseExtendedPayloadDataU16, if_neg ht,
        parseControlFrameReadExtendedPayloadDataU16, parseControlFramePayload]
      simp [h126, hs, payloadStep, Header.BadControl, ht]
  have hgood : ¬ w.context.header.header.BadControl ty := fun h => h126 h.2
  rw [if_neg hgood]
  by_cases h127 : w.context.header.header.payloadlen = 127
  · by_cases ht : ty = .unControlFrame
    · rw [payloadHandler, if_neg h126, if_pos h127, parseExtendedPayloadDataI64, if_pos ht,
        parseUncontrolFrameReadExtendedPayloadDataI64,
        parseUncontrolFramePayload_eq handler _ w (by simp [h127]) (by simp [hs, h127, payloadStep])]
      simp [ExtendedHeader.getRealDatalen, Context.deliver, ht,
        ExtendedHeader.getExtendedPayloadlenI64, dataSite, h127]
    · rw [payloadHandler, if_neg h126, if_pos h127, parseExtendedPayloadDataI64, if_neg ht,
        parseControlFrameReadExtendedPayloadDataI64,
        parseControlFramePayload_eq handler _ w (by simp [h127]) (by simp [hs, h127, payloadStep])]
      simp [ExtendedHeader.getRealDatalen, Context.deliver,
        ExtendedHeader.getExtendedPayloadlenI64, controlSite, h127, ht]
  have hlt : w.context.header.header.payloadlen < 126 := by omega
  by_cases ht : ty = .unControlFrame
  · rw [payloadHandler, if_neg h126, if_neg h127, parsePayloadData, if_pos ht,
      parseUncontrolFrameReadPayloadData,
      parseUncontrolFramePayload_eq handler _ w (by simp [hlt])
      (by simp [hs, h126, h127, payloadStep])]
    simp [ExtendedHeader.getRealDatalen, Context.deliver, dataSite, h126, h127, ht]
  · rw [payloadHandler, if_neg h126, if_neg h127, parsePayloadData, if_neg ht,
      parseControlFrameReadPayloadData,
      parseControlFramePayload_eq handler _ w (by simp [hlt])
      (by simp [hs, h126, h127, payloadStep])]
    simp [ExtendedHeader.getRealDatalen, Context.deliver, controlSite, h126, h127, ht]

theorem parseFrameReadMaskingkey_eq (hm : w.context.header.header.mask = true)
    (hs : w.context.step = .readMaskingkey) :
    parseFrameReadMaskingkey handler w =
      if w.buf.length < 4 then .ok (false, w)
      else if ¬ w.context.header.header.TypeOk then
        .error (.assertion .getFrameControlMessageType)
      else payloadHandler handler w.context.header.header.control
        w.context.header.header.payloadlen w.keyRead := by
  unfold parseFrameReadMaskingkey
  simp only [assert_pos hm, assert_pos hs, ok_bind]
  by_cases hlen : w.buf.length < 4
  · rw [if_pos hlen, if_pos hlen]
    rfl
  rw [if_neg hlen, if_neg hlen, Buffer.retrieve_of_le (by omega)]
  have hok : ∀ (f : FrameControlE → Except Failure (Bool × Parser)),
      (getFrameControlMessageType w.context.header.header >>= fun ty => do
        assert .parseFrameReadMaskingkey (ty.1 ≠ .frameInvalid)
        f ty.1) =
      if ¬ w.context.header.header.TypeOk then .error (.assertion .getFrameControlMessageType)
      else f w.context.header.header.control := by
    intro f
    rw [getFrameControlMessageType_bind _ fun ty => do
      assert .parseFrameReadMaskingkey (ty ≠ .frameInvalid)
      f ty, assert_pos (Header.control_ne_frameInvalid _), ok_bind, ite_not]
  rw [ok_bind]
  unfold payloadHandler Parser.keyRead Context.withKey payloadStep
  by_cases h126 : w.context.header.header.payloadlen = 126
  · simp only [h126, if_true]
    exact hok fun ty => parseExtendedPayloadDataU16 handler ty _
  by_cases h127 : w.context.header.header.payloadlen = 127
  · simp only [if_neg h126, if_pos h127]
    exact hok fun ty => parseExtendedPayloadDataI64 handler ty _
  have hlt : w.context.header.header.payloadlen < 126 := by omega
  simp only [if_neg h126, if_neg h127, assert_pos hlt, ok_bind]
  exact hok fun ty => parsePayloadData handler ty _

/-- A reader of an extended length loads its bytes in network order. -/
structure PayloadlenKind.Sound (k : PayloadlenKind) : Prop where
  read : ∀ buf : Bytes, k.width ≤ buf.length →
    k.read buf = .ok (leNat (buf.take k.width), buf.drop k.width)
  networkToHost : ∀ n, k.networkToHost n = byteSwap k.width n
  dataStep : k.dataStep = payloadStep k.payloadlen
  header : ∀ h n, (k.setExtendedPayloadlen h n).header = h.header

theorem PayloadlenKind.u16_sound : PayloadlenKind.u16.Sound where
  read buf h := by
    simp only [u16, Buffer.readInt16] at h ⊢
    rw [assert_pos h, Buffer.retrieve_of_le h]
    rfl
  networkToHost _ := rfl
  dataStep := rfl
  header := ExtendedHeader.header_setExtendedPayloadlenU16

theorem PayloadlenKind.i64_sound : PayloadlenKind.i64.Sound where
  read buf h := by
    simp only [i64, Buffer.readInt64] at h ⊢
    rw [assert_pos h, Buffer.retrieve_of_le h]
    rfl
  networkToHost _ := rfl
  dataStep := rfl
  header := ExtendedHeader.header_setExtendedPayloadlenI64

theorem parseFrameReadExtendedPayloadlen_eq {k : PayloadlenKind} (hk : k.Sound)
    (hn : w.context.header.header.payloadlen = k.payloadlen) (hs : w.context.step = k.step) :
    parseFrameReadExtendedPayloadlen k w =
      if w.buf.length < k.width then .ok (false, w)
      else .ok (true, ⟨w.context.withPayloadlen k.width k.setExtendedPayloadlen w.buf,
        w.buf.drop k.width, w.callbacks⟩) := by
  unfold parseFrameReadExtendedPayloadlen
  simp only [assert_pos hn, assert_pos hs, ok_bind]
  by_cases hlen : w.buf.length < k.width
  · rw [if_pos hlen, if_pos hlen]
    rfl
  have hswap : byteSwap k.width (leNat (w.buf.take k.width)) = beNat (w.buf.take k.width) := by
    have h := byteSwap_leNat (w.buf.take k.width)
    rwa [List.length_take_of_le (by omega)] at h
  rw [if_neg hlen, if_neg hlen, hk.read _ (by omega)]
  simp only [ok_bind, pure_eq_ok, hk.networkToHost, hswap, Context.withPayloadlen, hn,
    ← hk.dataStep]
  split_ifs <;> rfl

end Readers

section Header
variable {handler : ICallbackHandler} {ty : FrameControlE} {w : Parser}

/-- The reader that a header calls. -/
def bodyReader (handler : ICallbackHandler) (h : Header) :
    Parser → Except Failure (Bool × Parser) :=
  if h.payloadlen = 126 then parseFrameReadExtendedPayloadlenU16
  else if h.payloadlen = 127 then parseFrameReadExtendedPayloadlenI64
  else if h.mask then parseFrameReadMaskingkey handler
  else parseControlFrameReadPayloadData handler

theorem updateFrameBodyParseStep_eq (hs : w.context.step = .readFrameHeader) :
    updateFrameBodyParseStep handler w =
      bodyReader handler w.context.header.header
        (w.setWebsocketStep w.context.header.header.nextStep) >>= fun x => .ok x.2 := by
  unfold updateFrameBodyParseStep bodyReader Header.nextStep
  rw [assert_pos hs, ok_bind]
  split_ifs with h126 h127
  · rfl
  · rfl
  all_goals
    have hlt : w.context.header.header.payloadlen < 126 := by omega
    rw [assert_pos hlt, ok_bind]
    rfl

theorem bodyReader_of_shortUnmasked {h : Header} (hshort : h.ShortUnmasked) :
    bodyReader handler h = payloadHandler handler .controlFrame h.payloadlen := by
  obtain ⟨h126, h127, hm⟩ := hshort
  simp [bodyReader, payloadHandler, parsePayloadData, h126, h127, hm]

/-- The parser once the header is read and checked. -/
def Parser.headerRead (w : Parser) : Parser :=
  ⟨w.context.headerRead w.buf, w.buf.drop 2, w.callbacks⟩

theorem parseFrameReadFrameHeader_eq (hs : w.context.step = .readFrameHeader)
    (hlen : 2 ≤ w.buf.length) :
    parseFrameReadFrameHeader handler w =
      if (w.context.withHeader w.buf).Startable then
        bodyReader handler w.headerRead.context.header.header w.headerRead >>=
          fun x => .ok (true, x.2)
      else .error (.assertion .validateMessageFrame) := by
  unfold parseFrameReadFrameHeader
  rw [assert_pos hs, ok_bind, if_neg (by omega), Buffer.retrieve_of_le hlen, ok_bind]
  change (validateMessageFrame (w.context.withHeader w.buf) >>= _) = _
  rw [Context.validateMessageFrame_eq]
  split_ifs
  · rw [ok_bind, updateFrameBodyParseStep_eq (by simpa [Context.withHeader] using hs)]
    have hh : w.headerRead.context.header = (w.context.withHeader w.buf).header :=
      Context.headerRead_header _ _
    simp only [Context.started_header, hh]
    change ((bodyReader handler _ w.headerRead >>= _) >>= _) = _
    cases bodyReader handler (w.context.withHeader w.buf).header.header w.headerRead <;> rfl
  · rfl

theorem parseFrameStep_payload (hty : ty ≠ .frameInvalid)
    (hs : w.context.step = payloadStep w.context.header.header.payloadlen) :
    parseFrameStep handler ty w =
      payloadHandler handler ty w.context.header.header.payloadlen w := by
  unfold parseFrameStep payloadHandler
  rw [hs, payloadStep]
  split_ifs <;> simp only [assert_pos hty, ok_bind]

end Header

end LibWebsocket.Websocket
