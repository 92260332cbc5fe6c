import LibWebsocket.Websocket.Invariant

/-! The machine on a whole frame. Between frames the step is `ReadFrameHeader` and the
header is zero; a complete frame then acts on the context as one step, whatever bytes
follow it. -/
namespace LibWebsocket.Websocket
open Lib Rfc6455

/-- The header that the parser reads from a frame. -/
def headerOf (f : WireFrame) : Header where
  opcode := .ofCode f.opcode
  rsv3 := false
  rsv2 := false
  rsv1 := false
  fin := .ofBool f.fin
  payloadlen := ⟨f.form.code f.payload.length, LenForm.code_lt f.fits⟩
  mask := f.key.isSome

theorem headerOf_mask (f : WireFrame) : (headerOf f).mask = f.key.isSome := rfl

theorem ofBytes_head (f : WireFrame) : Header.ofBytes f.head0 f.head1 = headerOf f := by
  have hlen : Fin.ofNat 128 f.head1.toNat =
      ⟨f.form.code f.payload.length, LenForm.code_lt f.fits⟩ :=
    Fin.ext f.head1_length
  have hrsv := f.head0_reserved
  have h1 : f.head0.toNat / 16 % 2 = 0 := by omega
  have h2 : f.head0.toNat / 32 % 2 = 0 := by omega
  have h3 : f.head0.toNat / 64 % 2 = 0 := by omega
  simp only [Header.ofBytes, headerOf, f.head0_opcode, hlen, h1, h2, h3, f.head0_fin, f.head1_mask]
  simp

/-- The type of a message once a frame with opcode `op` has started. -/
def Message.startData (op : OpcodeE) (m : Message) : Message :=
  if op = .textMessage ∨ op = .binaryMessage then { m with messageType := op } else m

theorem Message.startData_messageType (op : OpcodeE) {m : Message}
    (hm : m.messageType = .textMessage ∨ m.messageType = .binaryMessage) :
    (m.startData op).messageType = .textMessage ∨
      (m.startData op).messageType = .binaryMessage := by
  unfold Message.startData
  split_ifs with hop
  · exact hop
  · exact hm

@[simp] theorem Message.startData_messageBuffer (op : OpcodeE) (m : Message) :
    (m.startData op).messageBuffer = m.messageBuffer := by
  unfold Message.startData
  split_ifs <;> rfl

@[simp] theorem Message.startData_segmentOffset (op : OpcodeE) (m : Message) :
    (m.startData op).segmentOffset = m.segmentOffset := by
  unfold Message.startData
  split_ifs <;> rfl

def Message.startControl (op : OpcodeE) (m : Message) : Message :=
  if op.IsControl then { m with messageType := op } else m

@[simp] theorem Message.startControl_messageBuffer (op : OpcodeE) (m : Message) :
    (m.startControl op).messageBuffer = m.messageBuffer := by
  unfold Message.startControl
  split_ifs <;> rfl

@[simp] theorem Message.startControl_segmentOffset (op : OpcodeE) (m : Message) :
    (m.startControl op).segmentOffset = m.segmentOffset := by
  unfold Message.startControl
  split_ifs <;> rfl

/-- The context inside a frame of which the header `h` is known so far. -/
def Context.inFrame (c : Context) (h : ExtendedHeader) (step : StepE) : Context where
  step := step
  state := c.state
  header := h
  dataMessage := c.dataMessage.startData h.header.opcode
  controlMessage := c.controlMessage.startControl h.header.opcode

theorem Context.started_eq (c : Context) : c.started = c.inFrame c.header c.step := by
  unfold Context.started Context.inFrame Message.startData Message.startControl
  split <;> simp_all [OpcodeE.IsControl]

/-- The header that the first two bytes hold. -/
def headOf (b : Bytes) : ExtendedHeader := ⟨.ofBytes (b.getD 0 0) (b.getD 1 0), fun _ => 0, 0⟩

theorem Context.withHeader_boundary {c : Context} (hc : c.Boundary) (b : Bytes) :
    c.withHeader b = { c with header := headOf b } := by
  simp only [Context.withHeader, hc.header]
  rfl

theorem Context.headerRead_boundary {c : Context} (hc : c.Boundary) (b : Bytes) :
    c.headerRead b = c.inFrame (headOf b) (headOf b).header.nextStep := by
  rw [Context.headerRead, Context.withHeader_boundary hc, Context.started_eq]
  rfl

/-- The first two bytes of a frame. -/
theorem tick_boundary (ty : FrameControlE) {c : Context} (hc : c.Boundary) {b : Bytes}
    (hlen : 2 ≤ b.length) :
    tick ty c b =
      if ¬ c.Starts (headOf b).header.opcode then .error (.assertion .validateMessageFrame)
      else if (headOf b).header.ShortUnmasked ∧ (headOf b).getRealDatalen ≤ (b.drop 2).length then
        tickDeliver .controlFrame (c.inFrame (headOf b) (headOf b).header.nextStep) (b.drop 2)
          (headOf b).getRealDatalen
      else .ok (some (c.inFrame (headOf b) (headOf b).header.nextStep, b.drop 2, [])) := by
  rw [tick, hc.step]
  change tickFrameHeader c b = _
  rw [tickFrameHeader, if_neg (not_lt.mpr hlen), Context.headerRead_boundary hc,
    Context.withHeader_boundary hc]
  rfl

theorem headOf_wire (f : WireFrame) (rest : Bytes) :
    headOf (f.wire ++ rest) = ⟨headerOf f, fun _ => 0, 0⟩ := by
  rw [← ofBytes_head]
  rfl

/-- The stored extended length of a frame. -/
def extendedOf (f : WireFrame) : UInt64 :=
  if f.form = .bits7 then 0 else .ofNat f.payload.length

/-- The header once every field before the payload is read. -/
def loadedHeader (f : WireFrame) : ExtendedHeader :=
  ⟨headerOf f, f.key.getD fun _ => 0, extendedOf f⟩

theorem payloadlen_eq_126_iff (f : WireFrame) :
    (headerOf f).payloadlen = 126 ↔ f.form = .bits16 := by
  have hfits := f.fits
  rw [Fin.ext_iff]
  change f.form.code f.payload.length = 126 ↔ _
  cases hform : f.form <;> simp [hform, LenForm.code, LenForm.Fits] at hfits ⊢
  omega

theorem payloadlen_eq_127_iff (f : WireFrame) :
    (headerOf f).payloadlen = 127 ↔ f.form = .bits64 := by
  have hfits := f.fits
  rw [Fin.ext_iff]
  change f.form.code f.payload.length = 127 ↔ _
  cases hform : f.form <;> simp [hform, LenForm.code, LenForm.Fits] at hfits ⊢
  omega

theorem shortUnmasked_iff (f : WireFrame) :
    (headerOf f).ShortUnmasked ↔ f.form = .bits7 ∧ f.key = none := by
  rw [Header.ShortUnmasked, ne_eq, ne_eq, payloadlen_eq_126_iff, payloadlen_eq_127_iff,
    headerOf_mask]
  cases f.form <;> simp

theorem getRealDatalen_of_loaded (f : WireFrame) (k : Key) :
    ExtendedHeader.getRealDatalen ⟨headerOf f, k, extendedOf f⟩ = f.payload.length := by
  have hfits := f.fits
  simp only [ExtendedHeader.getRealDatalen, payloadlen_eq_126_iff, payloadlen_eq_127_iff,
    extendedOf]
  cases hform : f.form with
  | bits7 => simp [headerOf, hform, LenForm.code]
  | bits16 =>
    simp only [hform, LenForm.Fits] at hfits
    simp [UInt64.toNat_ofNat']
    omega
  | bits64 =>
    simp only [hform, LenForm.Fits] at hfits
    simp [UInt64.toNat_ofNat']
    omega

section Stages
variable (ty : FrameControlE) (c : Context) (f : WireFrame) (rest : Bytes)

/-- One tick without output. -/
theorem run_of_silent_tick {ty : FrameControlE} {c c' : Context} {b b' : Bytes}
    (h : tick ty c b = .ok (some (c', b', []))) :
    (machine ty).run c b = (machine ty).run c' b' := by
  rw [(machine ty).run_of_tick h]
  cases (machine ty).run c' b' <;> rfl

theorem run_of_tickDeliver {ty ty' : FrameControlE} {c c' : Context} {b b' : Bytes} {n : ℕ}
    (h : tick ty c b = tickDeliver ty' c' b' n) :
    (machine ty).run c b = (c'.deliver ty' (b'.take n)).bind fun r =>
      ((machine ty).run r.1 (b'.drop n)).map (Consumer.Rest.after r.2) := by
  unfold tickDeliver at h
  cases hd : c'.deliver ty' (b'.take n) with
  | error e =>
    rw [hd] at h
    exact (machine ty).run_of_error h
  | ok r =>
    rw [hd] at h
    exact (machine ty).run_of_tick h

theorem tickPayloadlen_beBytes (k n : ℕ) (set : ExtendedHeader → ℕ → ExtendedHeader) :
    tickPayloadlen k set c (beBytes k n ++ rest) = .ok (some ({ c with
      header := set c.header (n % 256 ^ k)
      step := if c.header.header.mask then .readMaskingkey
        else payloadStep c.header.header.payloadlen }, rest, [])) := by
  have hd : (beBytes k n ++ rest).drop k = rest := List.drop_left' (by simp)
  have ht : (beBytes k n ++ rest).take k = beBytes k n := List.take_left' (by simp)
  rw [tickPayloadlen, if_neg (by simp), Context.withPayloadlen, hd, ht, beNat_beBytes]

/-- Reading the extended length, if there is one. -/
theorem run_extension (k : Key) :
    (machine ty).run (c.inFrame ⟨headerOf f, k, 0⟩ (headerOf f).nextStep)
        (f.form.extension f.payload.length ++ rest) =
      (machine ty).run (c.inFrame ⟨headerOf f, k, extendedOf f⟩
        (if f.key.isSome then .readMaskingkey else payloadStep (headerOf f).payloadlen)) rest := by
  have h126 := payloadlen_eq_126_iff f
  have h127 := payloadlen_eq_127_iff f
  have hfits := f.fits
  cases hform : f.form with
  | bits7 =>
    simp only [hform, reduceCtorEq, iff_false] at h126 h127
    simp only [LenForm.extension, List.nil_append, Header.nextStep, payloadStep, if_neg h126,
      if_neg h127, extendedOf, hform, if_true]
    rfl
  | bits16 =>
    simp only [hform, iff_true] at h126
    simp only [hform, LenForm.Fits] at hfits
    apply run_of_silent_tick
    rw [tick, Header.nextStep, if_pos h126]
    refine (tickPayloadlen_beBytes _ _ 2 f.payload.length _).trans ?_
    have hext : extendedOf f = UInt64.ofNat (f.payload.length % 256 ^ 2 % 2 ^ 16) := by
      rw [show f.payload.length % 256 ^ 2 % 2 ^ 16 = f.payload.length by omega, extendedOf, hform,
        if_neg (by decide)]
    simp only [Context.inFrame, ExtendedHeader.setExtendedPayloadlenU16, hext]
    simp only [headerOf_mask, UInt64.toNat_zero, Nat.zero_div, Nat.zero_mul, Nat.zero_add]
    rfl
  | bits64 =>
    simp only [hform, iff_true] at h127
    have h126 : (headerOf f).payloadlen ≠ 126 := by rw [h127]; decide
    simp only [hform, LenForm.Fits] at hfits
    apply run_of_silent_tick
    rw [tick, Header.nextStep, if_neg h126, if_pos h127]
    refine (tickPayloadlen_beBytes _ _ 8 f.payload.length _).trans ?_
    have hext : extendedOf f = UInt64.ofNat (f.payload.length % 256 ^ 8) := by
      rw [Nat.mod_eq_of_lt (by omega), extendedOf, hform, if_neg (by decide)]
    simp only [Context.inFrame, ExtendedHeader.setExtendedPayloadlenI64, hext]
    rfl

/-- Reading the key of a masked frame. -/
theorem run_maskingkey (k : Key) (e : UInt64) (hk : f.key = some k) :
    (machine ty).run (c.inFrame ⟨headerOf f, fun _ => 0, e⟩ .readMaskingkey)
        (keyBytes f.key ++ rest) =
      if ¬ (headerOf f).TypeOk then .error (.assertion .getFrameControlMessageType)
      else if (headerOf f).BadControl (headerOf f).control then
        .error (.assertion .parseControlFrameReadExtendedPayloadDataU16)
      else (machine ty).run (c.inFrame ⟨headerOf f, k, e⟩ (payloadStep (headerOf f).payloadlen))
        rest := by
  have hl : (keyBytes (some k)).length = 4 := by simp [keyBytes]
  have hd : (keyBytes (some k) ++ rest).drop 4 = rest := List.drop_left' hl
  have htick : tick ty (c.inFrame ⟨headerOf f, fun _ => 0, e⟩ .readMaskingkey)
      (keyBytes (some k) ++ rest) =
      if ¬ (headerOf f).TypeOk then .error (.assertion .getFrameControlMessageType)
      else if (headerOf f).BadControl (headerOf f).control then
        .error (.assertion .parseControlFrameReadExtendedPayloadDataU16)
      else .ok (some (c.inFrame ⟨headerOf f, k, e⟩ (payloadStep (headerOf f).payloadlen),
        rest, [])) := by
    change tickMaskingkey _ _ = _
    rw [tickMaskingkey, if_neg (by simp [hl]), Context.withKey, hd, getD_keyBytes]
    rfl
  rw [hk]
  split_ifs at htick ⊢
  · exact (machine ty).run_of_error htick
  · exact run_of_silent_tick htick
  · exact (machine ty).run_of_error htick

/-- Reading a payload of which every byte is there. -/
theorem run_payload (k : Key) (p : Bytes) (hp : p.length = f.payload.length)
    (hne : f.key = none → p ++ rest ≠ []) :
    (machine ty).run (c.inFrame ⟨headerOf f, k, extendedOf f⟩
        (payloadStep (headerOf f).payloadlen)) (p ++ rest) =
      if (headerOf f).BadControl ((headerOf f).handlerType ty) then
        .error (.assertion .parseControlFrameReadExtendedPayloadDataU16)
      else ((c.inFrame ⟨headerOf f, k, extendedOf f⟩
          (payloadStep (headerOf f).payloadlen)).deliver ((headerOf f).handlerType ty) p).bind
        fun r => ((machine ty).run r.1 rest).map (Consumer.Rest.after r.2) := by
  have hL := getRealDatalen_of_loaded f k
  have ht : (p ++ rest).take f.payload.length = p := List.take_left' hp
  have hd : (p ++ rest).drop f.payload.length = rest := List.drop_left' hp
  have htick : tick ty (c.inFrame ⟨headerOf f, k, extendedOf f⟩
      (payloadStep (headerOf f).payloadlen)) (p ++ rest) = tickPayload ty _ (p ++ rest) :=
    tick_of_isPayload (payloadStep_isPayload _)
  have hmask : ¬ ((c.inFrame ⟨headerOf f, k, extendedOf f⟩
      (payloadStep (headerOf f).payloadlen)).header.header.mask = false ∧
      (p ++ rest).length = 0) := by
    rintro ⟨hm, hzero⟩
    exact hne (by simpa [Context.inFrame, headerOf_mask] using hm) (List.length_eq_zero_iff.mp hzero)
  rw [tickPayload, if_neg hmask] at htick
  by_cases hbad : (headerOf f).BadControl ((headerOf f).handlerType ty)
  · rw [if_pos hbad]
    exact (machine ty).run_of_error (htick.trans (if_pos hbad))
  · rw [if_neg hbad]
    have hdeliver := htick.trans ((if_neg hbad).trans (if_neg (by
      rw [not_lt]
      exact hL.trans_le (by simp [hp]))))
    rw [run_of_tickDeliver hdeliver]
    simp only [Context.inFrame, hL, ht, hd]

end Stages

/-- The handler that delivers a complete frame: a short unmasked payload always goes to the
control handler. -/
def frameType (ty : FrameControlE) (f : WireFrame) : FrameControlE :=
  if (headerOf f).ShortUnmasked then .controlFrame else (headerOf f).handlerType ty

/-- The context when the payload of `f` is to be delivered. -/
def Context.loaded (c : Context) (f : WireFrame) : Context :=
  c.inFrame (loadedHeader f) (payloadStep (headerOf f).payloadlen)

/-- What a complete frame does to a context between two frames. -/
def Context.consume (ty : FrameControlE) (c : Context) (f : WireFrame) :
    Except Failure (Context × List Callback) :=
  if ¬ c.Starts (headerOf f).opcode then .error (.assertion .validateMessageFrame)
  else if f.key.isSome ∧ ¬ (headerOf f).TypeOk then
    .error (.assertion .getFrameControlMessageType)
  else if (headerOf f).BadControl (frameType ty f) then
    .error (.assertion .parseControlFrameReadExtendedPayloadDataU16)
  else (c.loaded f).deliver (frameType ty f) (applyKey f.key f.payload)

section Wire
variable {ty : FrameControlE} {c : Context} {f : WireFrame} {rest : Bytes}

theorem drop_wire (f : WireFrame) (rest : Bytes) :
    (f.wire ++ rest).drop 2 = f.form.extension f.payload.length ++
      (keyBytes f.key ++ (applyKey f.key f.payload ++ rest)) := by
  simp [WireFrame.wire]

theorem tickFrameHeader_wire (hc : c.Boundary) :
    tick ty c (f.wire ++ rest) =
      if ¬ c.Starts (headerOf f).opcode then .error (.assertion .validateMessageFrame)
      else if (headerOf f).ShortUnmasked then
        tickDeliver .controlFrame (c.loaded f) (f.payload ++ rest) f.payload.length
      else .ok (some (c.inFrame ⟨headerOf f, fun _ => 0, 0⟩ (headerOf f).nextStep,
        f.form.extension f.payload.length ++ (keyBytes f.key ++
          (applyKey f.key f.payload ++ rest)), [])) := by
  have htick := tick_boundary ty hc (b := f.wire ++ rest) (by simp [WireFrame.wire])
  rw [headOf_wire] at htick
  rw [htick]
  by_cases hs : c.Starts (headerOf f).opcode
  · rw [if_neg (not_not.mpr hs), if_neg (not_not.mpr hs)]
    by_cases hshort : (headerOf f).ShortUnmasked
    · obtain ⟨hform, hkey⟩ := (shortUnmasked_iff f).mp hshort
      have hload : c.inFrame ⟨headerOf f, fun _ => 0, 0⟩ (headerOf f).nextStep = c.loaded f := by
        have hstep : (headerOf f).nextStep = payloadStep (headerOf f).payloadlen := by
          simp [Header.nextStep, payloadStep, hshort.1, hshort.2.1, hshort.2.2]
        rw [Context.loaded, loadedHeader, extendedOf, hform, hkey, hstep]
        rfl
      have hL : ExtendedHeader.getRealDatalen ⟨headerOf f, fun _ => 0, 0⟩ = f.payload.length := by
        have h := getRealDatalen_of_loaded f fun _ => 0
        rwa [extendedOf, if_pos hform] at h
      have hdrop : (f.wire ++ rest).drop 2 = f.payload ++ rest := by
        simp [drop_wire, hform, hkey, LenForm.extension, keyBytes, applyKey]
      rw [hload, hL, hdrop, if_pos ⟨hshort, by simp⟩, if_pos hshort]
    · rw [drop_wire, if_neg (fun h => hshort h.1), if_neg hshort]
  · rw [if_pos hs, if_pos hs]

/-- A complete frame acts as one step. The last condition is about an unmasked empty frame
with an extended length: the parser only finishes it once another byte is there. -/
theorem run_wire (hc : c.Boundary)
    (hne : f.key = none → f.form ≠ .bits7 → f.payload ++ rest ≠ []) :
    (machine ty).run c (f.wire ++ rest) =
      (c.consume ty f).bind fun r =>
        ((machine ty).run r.1 rest).map (Consumer.Rest.after r.2) := by
  have htick : tick ty c (f.wire ++ rest) = _ := tickFrameHeader_wire hc
  unfold Context.consume frameType
  by_cases hs : c.Starts (headerOf f).opcode
  · rw [if_neg (not_not.mpr hs)] at htick ⊢
    by_cases hshort : (headerOf f).ShortUnmasked
    · obtain ⟨-, hkey⟩ := (shortUnmasked_iff f).mp hshort
      rw [if_pos hshort] at htick ⊢
      rw [run_of_tickDeliver htick, List.take_left' rfl, List.drop_left' rfl,
        if_neg (by simp [hkey]), if_neg (fun h => hshort.1 h.2)]
      simp [hkey, applyKey]
    · rw [if_neg hshort] at htick ⊢
      rw [run_of_silent_tick htick, run_extension]
      cases hkey : f.key with
      | none =>
        have hform : f.form ≠ .bits7 := fun h => hshort ((shortUnmasked_iff f).mpr ⟨h, hkey⟩)
        have h := run_payload ty c f rest (fun _ => 0) f.payload rfl (fun h => hne h hform)
        simp only [Option.isSome_none, Bool.false_eq_true, if_false, keyBytes, applyKey,
          Option.elim_none, List.nil_append, false_and]
        rw [h, Context.loaded, loadedHeader, hkey]
        split_ifs <;> rfl
      | some k =>
        have hown : (headerOf f).handlerType ty = (headerOf f).control := by
          simp [Header.handlerType, headerOf_mask, hkey]
        have h := run_payload ty c f rest k (applyKey f.key f.payload) (by simp)
          (fun h => by simp [hkey] at h)
        rw [Option.isSome_some, if_pos rfl, ← hkey, run_maskingkey ty c f _ k _ hkey, h, hown]
        simp only [Context.loaded, loadedHeader, hkey, true_and]
        split_ifs <;> rfl
  · rw [if_pos hs] at htick ⊢
    exact (machine ty).run_of_error htick

end Wire

end LibWebsocket.Websocket
