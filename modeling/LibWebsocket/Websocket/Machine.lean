import LibWebsocket.Websocket.Deliver
import LibWebsocket.Lib.Consumer

/-! The parser as a machine that consumes bytes, one field of a frame at a time. The frame
type `ty` that `parse_frame` computes before its loop only matters to unmasked frames. -/
namespace LibWebsocket.Websocket
open Lib Rfc6455

/-- The control type of a header that `get_frame_control_message_type` accepts. -/
def Header.control (h : Header) : FrameControlE :=
  if h.opcode.IsData then .unControlFrame else .controlFrame

/-- The opcode is known, and a control frame is final. -/
def Header.TypeOk (h : Header) : Prop :=
  h.opcode.IsData ∨ (h.opcode.IsControl ∧ h.fin = .frameFinished)

instance (h : Header) : Decidable h.TypeOk := inferInstanceAs (Decidable (_ ∨ _))

theorem getFrameControlMessageType_bind {α : Type} (h : Header)
    (f : FrameControlE → Except Failure α) :
    (getFrameControlMessageType h >>= fun ty => f ty.1) =
      if h.TypeOk then f h.control else .error (.assertion .getFrameControlMessageType) := by
  obtain ⟨o, r3, r2, r1, fin, n, m⟩ := h
  cases o <;> cases fin <;> rfl

theorem Header.control_ne_frameInvalid (h : Header) : h.control ≠ .frameInvalid := by
  unfold Header.control
  split_ifs <;> decide

def ExtendedHeader.getRealDatalen (h : ExtendedHeader) : ℕ :=
  if h.header.payloadlen = 126 then h.extendedPayloadlen.toNat % 2 ^ 16
  else if h.header.payloadlen = 127 then h.extendedPayloadlen.toNat
  else h.header.payloadlen

theorem getRealDatalen_setU16 {h : ExtendedHeader} {n : ℕ} (hn : n < 2 ^ 16)
    (h126 : h.header.payloadlen = 126) : (h.setExtendedPayloadlenU16 n).getRealDatalen = n := by
  have hold := h.extendedPayloadlen.toNat_lt
  rw [ExtendedHeader.getRealDatalen, ExtendedHeader.setExtendedPayloadlenU16, if_pos h126,
    UInt64.toNat_ofNat']
  omega

theorem getRealDatalen_setI64 {h : ExtendedHeader} {n : ℕ} (hn : n < 2 ^ 64)
    (h127 : h.header.payloadlen = 127) : (h.setExtendedPayloadlenI64 n).getRealDatalen = n := by
  have h126 : h.header.payloadlen ≠ 126 := by rw [h127]; decide
  rw [ExtendedHeader.getRealDatalen, ExtendedHeader.setExtendedPayloadlenI64, if_neg h126,
    if_pos h127, UInt64.toNat_ofNat', Nat.mod_eq_of_lt hn]

/-- The step in which a payload of the given length class is read. -/
def payloadStep (n : Fin 128) : StepE :=
  if n = 126 then .readExtendedPayloadDataU16
  else if n = 127 then .readExtendedPayloadDataI64 else .readPayloadData

def dataSite (n : Fin 128) : Site :=
  if n = 126 then .parseUncontrolFrameReadExtendedPayloadDataU16
  else if n = 127 then .parseUncontrolFrameReadExtendedPayloadDataI64
  else .parseUncontrolFrameReadPayloadData

def controlSite (n : Fin 128) : Site :=
  if n = 126 then .parseControlFrameReadExtendedPayloadDataU16
  else if n = 127 then .parseControlFrameReadExtendedPayloadDataI64
  else .parseControlFrameReadPayloadData

def Context.deliver (ty : FrameControlE) (c : Context) (p : Bytes) :
    Except Failure (Context × List Callback) :=
  if ty = .unControlFrame then c.deliverData (dataSite c.header.header.payloadlen) p
  else c.deliverControl (controlSite c.header.header.payloadlen) p

abbrev Tick := Except Failure (Option (Consumer.Rest Context UInt8 Callback))

/-- Deliver the first `n` bytes and leave the others unread. -/
def tickDeliver (ty : FrameControlE) (c : Context) (b : Bytes) (n : ℕ) : Tick :=
  (c.deliver ty (b.take n)).map fun r => some (r.1, b.drop n, r.2)

/-- The context once the two header bytes are stored. -/
def Context.withHeader (c : Context) (b : Bytes) : Context :=
  { c with header.header := .ofBytes (b.getD 0 0) (b.getD 1 0) }

/-- The step after a header, where its short unmasked payload is not delivered at once. -/
def Header.nextStep (h : Header) : StepE :=
  if h.payloadlen = 126 then .readExtendedPayloadlenU16
  else if h.payloadlen = 127 then .readExtendedPayloadlenI64
  else if h.mask then .readMaskingkey else .readPayloadData

/-- The payload follows the two header bytes directly. -/
def Header.ShortUnmasked (h : Header) : Prop :=
  h.payloadlen ≠ 126 ∧ h.payloadlen ≠ 127 ∧ h.mask = false

instance (h : Header) : Decidable h.ShortUnmasked := inferInstanceAs (Decidable (_ ∧ _))

/-- The context once the header is stored and checked. -/
def Context.headerRead (c : Context) (b : Bytes) : Context :=
  { (c.withHeader b).started with step := (c.withHeader b).header.header.nextStep }

theorem Context.headerRead_header (c : Context) (b : Bytes) :
    (c.headerRead b).header = (c.withHeader b).header :=
  Context.started_header _

theorem Context.headerRead_step (c : Context) (b : Bytes) :
    (c.headerRead b).step = (c.headerRead b).header.header.nextStep := by
  rw [Context.headerRead_header]
  rfl

/-- An unmasked short payload that is already there is delivered with the header. -/
def tickFrameHeader (c : Context) (b : Bytes) : Tick :=
  if b.length < 2 then .ok none
  else if ¬ (c.withHeader b).Startable then .error (.assertion .validateMessageFrame)
  else if (c.headerRead b).header.header.ShortUnmasked ∧
      (c.headerRead b).header.getRealDatalen ≤ (b.drop 2).length then
    tickDeliver .controlFrame (c.headerRead b) (b.drop 2) (c.headerRead b).header.getRealDatalen
  else .ok (some (c.headerRead b, b.drop 2, []))

/-- The context once an extended length of `k` bytes is stored. -/
def Context.withPayloadlen (k : ℕ) (set : ExtendedHeader → ℕ → ExtendedHeader) (c : Context)
    (b : Bytes) : Context :=
  { c with
    header := set c.header (beNat (b.take k))
    step := if c.header.header.mask then .readMaskingkey
      else payloadStep c.header.header.payloadlen }

def tickPayloadlen (k : ℕ) (set : ExtendedHeader → ℕ → ExtendedHeader) (c : Context) (b : Bytes) :
    Tick :=
  if b.length < k then .ok none else .ok (some (c.withPayloadlen k set b, b.drop k, []))

/-- The context once the masking key is stored. -/
def Context.withKey (c : Context) (b : Bytes) : Context :=
  { c with
    header.maskingKey := fun i => b.getD i 0
    step := payloadStep c.header.header.payloadlen }

/-- The 16-bit control handler asserts another step than the one it is called in. -/
def Header.BadControl (h : Header) (ty : FrameControlE) : Prop :=
  ty ≠ .unControlFrame ∧ h.payloadlen = 126

instance (h : Header) (ty : FrameControlE) : Decidable (h.BadControl ty) :=
  inferInstanceAs (Decidable (_ ∧ _))

def tickMaskingkey (c : Context) (b : Bytes) : Tick :=
  if b.length < 4 then .ok none
  else if ¬ c.header.header.TypeOk then .error (.assertion .getFrameControlMessageType)
  else if c.header.header.BadControl c.header.header.control then
    .error (.assertion .parseControlFrameReadExtendedPayloadDataU16)
  else .ok (some (c.withKey b, b.drop 4, []))

/-- The handler of a masked payload follows from its own header, that of an unmasked one
from the type computed before the loop. -/
def Header.handlerType (h : Header) (ty : FrameControlE) : FrameControlE :=
  if h.mask then h.control else ty

/-- An unmasked payload is not looked at while the buffer is empty. -/
def tickPayload (ty : FrameControlE) (c : Context) (b : Bytes) : Tick :=
  if c.header.header.mask = false ∧ b.length = 0 then .ok none
  else if c.header.header.BadControl (c.header.header.handlerType ty) then
    .error (.assertion .parseControlFrameReadExtendedPayloadDataU16)
  else if b.length < c.header.getRealDatalen then .ok none
  else tickDeliver (c.header.header.handlerType ty) c b c.header.getRealDatalen

theorem tickPayload_of_masked (ty : FrameControlE) {c : Context} (b : Bytes)
    (hm : c.header.header.mask = true) :
    tickPayload ty c b =
      if c.header.header.BadControl c.header.header.control then
        .error (.assertion .parseControlFrameReadExtendedPayloadDataU16)
      else if b.length < c.header.getRealDatalen then .ok none
      else tickDeliver c.header.header.control c b c.header.getRealDatalen := by
  have hty : c.header.header.handlerType ty = c.header.header.control := by
    simp [Header.handlerType, hm]
  rw [tickPayload, if_neg (by simp [hm]), hty]

def tick (ty : FrameControlE) (c : Context) (b : Bytes) : Tick :=
  match c.step with
  | .readFrameHeader => tickFrameHeader c b
  | .readExtendedPayloadlenU16 => tickPayloadlen 2 .setExtendedPayloadlenU16 c b
  | .readExtendedPayloadlenI64 => tickPayloadlen 8 .setExtendedPayloadlenI64 c b
  | .readMaskingkey => tickMaskingkey c b
  | .readPayloadData | .readExtendedPayloadDataU16 | .readExtendedPayloadDataI64 =>
    tickPayload ty c b

/-- The steps in which a payload is read. -/
def StepE.IsPayload (s : StepE) : Prop :=
  s = .readPayloadData ∨ s = .readExtendedPayloadDataU16 ∨ s = .readExtendedPayloadDataI64

instance (s : StepE) : Decidable s.IsPayload := inferInstanceAs (Decidable (_ ∨ _))

theorem payloadStep_isPayload (n : Fin 128) : (payloadStep n).IsPayload := by
  unfold payloadStep
  split_ifs <;> decide

theorem tick_of_isPayload {ty : FrameControlE} {c : Context} {b : Bytes} (h : c.step.IsPayload) :
    tick ty c b = tickPayload ty c b := by
  unfold tick
  rcases h with h | h | h <;> rw [h]

/-- Every tick reads a byte or leaves a payload step. -/
def tickSize (c : Context) (b : Bytes) : ℕ := 2 * b.length + if c.step.IsPayload then 1 else 0

theorem deliver_step {ty : FrameControlE} {c c' : Context} {p : Bytes} {o : List Callback}
    (h : c.deliver ty p = .ok (c', o)) : c'.step = .readFrameHeader ∧ c'.header = .zero := by
  unfold Context.deliver Context.deliverData Context.deliverControl at h
  dsimp only at h
  split at h <;> split at h
  · cases h; exact ⟨rfl, rfl⟩
  · split at h <;> cases h; exact ⟨rfl, rfl⟩
  · cases h; exact ⟨rfl, rfl⟩
  · split at h <;> cases h <;> exact ⟨rfl, rfl⟩

theorem tickDeliver_ok {ty : FrameControlE} {c c' : Context} {b b' : Bytes} {n : ℕ}
    {o : List Callback} (h : tickDeliver ty c b n = .ok (some (c', b', o))) :
    c.deliver ty (b.take n) = .ok (c', o) ∧ b' = b.drop n := by
  unfold tickDeliver at h
  cases hd : c.deliver ty (b.take n) with
  | error e => simp [hd, Except.map] at h
  | ok r =>
    simp only [hd, Except.map, Except.ok.injEq, Option.some.injEq, Prod.mk.injEq] at h
    obtain ⟨rfl, rfl, rfl⟩ := h
    exact ⟨rfl, rfl⟩

section Inversion
variable {ty : FrameControlE} {c c' : Context} {b b' : Bytes} {o : List Callback}

theorem tickFrameHeader_ok (h : tickFrameHeader c b = .ok (some (c', b', o))) :
    2 ≤ b.length ∧ (c.withHeader b).Startable ∧
      (((c.headerRead b).header.header.ShortUnmasked ∧
          (c.headerRead b).header.getRealDatalen ≤ (b.drop 2).length ∧
          (c.headerRead b).deliver .controlFrame
            ((b.drop 2).take (c.headerRead b).header.getRealDatalen) = .ok (c', o) ∧
          b' = (b.drop 2).drop (c.headerRead b).header.getRealDatalen) ∨
        (¬ ((c.headerRead b).header.header.ShortUnmasked ∧
            (c.headerRead b).header.getRealDatalen ≤ (b.drop 2).length) ∧
          c' = c.headerRead b ∧ b' = b.drop 2 ∧ o = [])) := by
  unfold tickFrameHeader at h
  split_ifs at h with hlen hs hshort
  · cases h
  · obtain ⟨hd, hb⟩ := tickDeliver_ok h
    exact ⟨by omega, hs, .inl ⟨hshort.1, hshort.2, hd, hb⟩⟩
  · cases h
    exact ⟨by omega, hs, .inr ⟨hshort, rfl, rfl, rfl⟩⟩

theorem tickPayloadlen_ok {k : ℕ} {set : ExtendedHeader → ℕ → ExtendedHeader}
    (h : tickPayloadlen k set c b = .ok (some (c', b', o))) :
    k ≤ b.length ∧ b' = b.drop k ∧ o = [] ∧ c' = c.withPayloadlen k set b := by
  unfold tickPayloadlen at h
  split at h
  · cases h
  · cases h
    exact ⟨by omega, rfl, rfl, rfl⟩

theorem tickMaskingkey_ok (h : tickMaskingkey c b = .ok (some (c', b', o))) :
    4 ≤ b.length ∧ c.header.header.TypeOk ∧
      ¬ c.header.header.BadControl c.header.header.control ∧
      b' = b.drop 4 ∧ o = [] ∧ c' = c.withKey b := by
  unfold tickMaskingkey at h
  split_ifs at h with hlen hty hctl
  · cases h
  · cases h
    exact ⟨by omega, hty, hctl, rfl, rfl, rfl⟩

theorem tickPayload_ok (h : tickPayload ty c b = .ok (some (c', b', o))) :
    (c.header.header.mask = false → 0 < b.length) ∧
      ¬ c.header.header.BadControl (c.header.header.handlerType ty) ∧
      c.header.getRealDatalen ≤ b.length ∧
      c.deliver (c.header.header.handlerType ty) (b.take c.header.getRealDatalen) = .ok (c', o) ∧
      b' = b.drop c.header.getRealDatalen := by
  unfold tickPayload at h
  split_ifs at h with hempty hctl hlen
  · cases h
  · cases h
  · obtain ⟨hd, hb⟩ := tickDeliver_ok h
    exact ⟨fun hm => by simp only [hm, true_and] at hempty; omega, hctl, by omega, hd, hb⟩

theorem tick_size (h : tick ty c b = .ok (some (c', b', o))) : tickSize c' b' < tickSize c b := by
  have hbound : ∀ (s : StepE) (n : ℕ), n ≤ b.length → 0 < n →
      2 * (b.drop n).length + (if s.IsPayload then 1 else 0) < tickSize c b := by
    intro s n hn hpos
    simp only [tickSize, List.length_drop]
    split_ifs <;> omega
  unfold tick at h
  split at h
  case h_1 =>
    obtain ⟨hlen, -, ⟨-, -, hd, rfl⟩ | ⟨-, rfl, rfl, rfl⟩⟩ := tickFrameHeader_ok h
    · simp only [tickSize, (deliver_step hd).1, List.length_drop]
      rw [if_neg (by decide)]
      omega
    · exact hbound _ 2 hlen (by omega)
  case h_2 | h_3 =>
    obtain ⟨hlen, rfl, rfl, rfl⟩ := tickPayloadlen_ok h
    exact hbound _ _ hlen (by omega)
  case h_4 =>
    obtain ⟨hlen, -, -, rfl, rfl, rfl⟩ := tickMaskingkey_ok h
    exact hbound _ 4 hlen (by omega)
  all_goals
    rename_i hstep
    obtain ⟨-, -, hlen, hd, rfl⟩ := tickPayload_ok h
    simp only [tickSize, (deliver_step hd).1, hstep, List.length_drop]
    rw [if_neg (by decide), if_pos (by decide)]
    omega

end Inversion

/-- The machine that `parse_frame` runs until it waits. -/
def machine (ty : FrameControlE) : Consumer Context UInt8 Callback Failure where
  tick := tick ty
  size := tickSize
  tick_size := tick_size

@[simp] theorem machine_tick (ty : FrameControlE) (c : Context) (b : Bytes) :
    (machine ty).tick c b = tick ty c b := rfl

end LibWebsocket.Websocket
