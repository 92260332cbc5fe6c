import LibWebsocket.Websocket.Stream

/-! What follows a close frame in the same call. The loop of `parse_frame` does not look at
the state, so the bytes behind a close frame are parsed like any others. -/
namespace LibWebsocket.Websocket
open Lib Rfc6455

/-- The header at the front of the input, the payload length it announces and the bytes
behind both, once all of it is there. -/
def payloadStart? (b : Bytes) : Option (Header × ℕ × Bytes) :=
  if b.length < 2 then none
  else
    let h := Header.ofBytes (b.getD 0 0) (b.getD 1 0)
    let r := b.drop 2
    if h.payloadlen = 126 then
      if r.length < 2 then none else some (h, beNat (r.take 2), r.drop 2)
    else if h.payloadlen = 127 then
      if r.length < 8 then none else some (h, beNat (r.take 8), r.drop 8)
    else some (h, h.payloadlen, r)

theorem payloadStart?_length {b r : Bytes} {h : Header} {n : ℕ}
    (hb : payloadStart? b = some (h, n, r)) : r.length < b.length := by
  unfold payloadStart? at hb
  dsimp only at hb
  split_ifs at hb <;> cases hb <;> simp only [List.length_drop] <;> omega

/-- Frames without FIN and without payload, and then at most the beginning of a frame of a
type that the parser accepts. -/
def Quiet (b : Bytes) : Prop :=
  match _hb : payloadStart? b with
  | none => True
  | some (h, n, r) =>
    if h.mask then
      r.length < 4 ∨ (h.TypeOk ∧ ¬ h.BadControl h.control ∧
        ((r.drop 4).length < n ∨ (h.fin = .frameContinue ∧ n = 0 ∧ Quiet (r.drop 4))))
    else
      r.length < n ∨ (r = [] ∧ ¬ h.ShortUnmasked) ∨ (h.fin = .frameContinue ∧ n = 0 ∧ Quiet r)
termination_by b.length
decreasing_by
  · have := payloadStart?_length _hb
    simp only [List.length_drop]
    omega
  · exact payloadStart?_length _hb

theorem quiet_of_none {b : Bytes} (hb : payloadStart? b = none) : Quiet b := by
  rw [Quiet]
  split <;> simp_all

theorem quiet_of_some {b r : Bytes} {h : Header} {n : ℕ} (hb : payloadStart? b = some (h, n, r)) :
    Quiet b ↔
      if h.mask then
        r.length < 4 ∨ (h.TypeOk ∧ ¬ h.BadControl h.control ∧
          ((r.drop 4).length < n ∨ (h.fin = .frameContinue ∧ n = 0 ∧ Quiet (r.drop 4))))
      else
        r.length < n ∨ (r = [] ∧ ¬ h.ShortUnmasked) ∨
          (h.fin = .frameContinue ∧ n = 0 ∧ Quiet r) := by
  rw [Quiet]
  split <;> simp_all

section Pending
variable {ty : FrameControlE} {c c' : Context} {b b' p : Bytes} {o : List Callback}

/-- The bytes of both messages that wait for their callback. -/
def Context.pending (c : Context) : ℕ :=
  c.dataMessage.messageBuffer.length + c.controlMessage.messageBuffer.length

theorem Context.pending_eq_zero_iff :
    c.pending = 0 ↔ c.dataMessage.messageBuffer = [] ∧ c.controlMessage.messageBuffer = [] := by
  rw [Context.pending, Nat.add_eq_zero_iff, List.length_eq_zero_iff, List.length_eq_zero_iff]

theorem Message.length_unMaskPayloadData (m : Message) (unMask : Bool) (key : Key) :
    (m.unMaskPayloadData unMask key).messageBuffer.length = m.messageBuffer.length := by
  unfold Message.unMaskPayloadData
  split_ifs with h
  · simp
    omega
  · rfl

/-- A final frame is reported; the payload of any other waits. -/
theorem deliver_cases (h : c.deliver ty p = .ok (c', o)) :
    (c.header.header.fin = .frameFinished ∧ o ≠ []) ∨
    (c.header.header.fin = .frameContinue ∧ o = [] ∧ c'.pending = c.pending + p.length) := by
  unfold Context.deliver Context.deliverData Context.deliverControl at h
  dsimp only at h
  have hgrow : ∀ m : Message, ((m.append p).unMaskPayloadData c.header.header.mask
      c.header.maskingKey).messageBuffer.length = m.messageBuffer.length + p.length := by
    intro m
    simp [Message.length_unMaskPayloadData, Message.append]
  split at h <;> split at h <;> rename_i hfin
  · cases h
    refine .inr ⟨hfin, rfl, ?_⟩
    simp only [Context.pending, Context.endFrame, hgrow]
    omega
  · split at h <;> cases h
    exact .inl ⟨hfin, by simp⟩
  · cases h
    refine .inr ⟨hfin, rfl, ?_⟩
    simp only [Context.pending, Context.endFrame, hgrow]
    omega
  · split at h <;> cases h <;> exact .inl ⟨hfin, by simp⟩

theorem inFrame_pending (c : Context) (h : ExtendedHeader) (step : StepE) :
    (c.inFrame h step).pending = c.pending := by
  simp only [Context.pending, Context.inFrame, Message.startData_messageBuffer,
    Message.startControl_messageBuffer]

theorem headerRead_pending (c : Context) (b : Bytes) : (c.headerRead b).pending = c.pending := by
  simp only [Context.headerRead, Context.started_eq]
  exact inFrame_pending _ _ .readFrameHeader

/-- What waits is not lost before a callback. -/
theorem tick_pending (h : tick ty c b = .ok (some (c', b', []))) : c.pending ≤ c'.pending := by
  have hdeliver : ∀ {c₁ : Context} {ty' : FrameControlE} {p : Bytes},
      c₁.deliver ty' p = .ok (c', []) → c₁.pending ≤ c'.pending := by
    intro c₁ ty' p hd
    obtain ⟨-, hne⟩ | ⟨-, -, hp⟩ := deliver_cases hd
    · exact absurd rfl hne
    · omega
  unfold tick at h
  split at h
  case h_1 =>
    obtain ⟨-, -, ⟨-, -, hd, -⟩ | ⟨-, rfl, -, -⟩⟩ := tickFrameHeader_ok h
    · exact (headerRead_pending c b).ge.trans (hdeliver hd)
    · exact (headerRead_pending c b).ge
  case h_2 | h_3 =>
    obtain ⟨-, -, -, rfl⟩ := tickPayloadlen_ok h
    exact Nat.le_refl _
  case h_4 =>
    obtain ⟨-, -, -, -, -, rfl⟩ := tickMaskingkey_ok h
    exact Nat.le_refl _
  all_goals
    obtain ⟨-, -, -, hd, -⟩ := tickPayload_ok h
    exact hdeliver hd

theorem steps_pending (h : (machine ty).Steps c b o c' b') (ho : o = []) :
    c.pending ≤ c'.pending := by
  induction h with
  | refl => exact Nat.le_refl _
  | head ht _ ih =>
    obtain ⟨rfl, rfl⟩ := List.append_eq_nil_iff.mp ho
    exact (tick_pending ht).trans (ih rfl)

end Pending

/-- A context after a close frame, with nothing left to report. -/
structure Context.Drained (c : Context) : Prop extends c.Inv where
  state : c.state = .kClosed
  pending : c.pending = 0

section Drained
variable {ty ty' : FrameControlE} {c c' : Context} {b b' : Bytes} {n : ℕ}

theorem Context.Drained.dataBuffer (hc : c.Drained) : c.dataMessage.messageBuffer = [] :=
  (Context.pending_eq_zero_iff.mp hc.pending).1

theorem Context.Drained.controlBuffer (hc : c.Drained) : c.controlMessage.messageBuffer = [] :=
  (Context.pending_eq_zero_iff.mp hc.pending).2

theorem Context.Drained.starts (hc : c.Drained) (op : OpcodeE) : c.Starts op :=
  ⟨fun _ => hc.dataType, fun _ => hc.dataBuffer, fun _ => hc.controlBuffer⟩

theorem Context.Drained.inFrame (hc : c.Drained) (h : ExtendedHeader) (step : StepE) :
    (c.inFrame h step).Drained where
  dataType := Message.startData_messageType _ hc.dataType
  data := by
    simpa [Message.Inv, Context.inFrame] using hc.data
  control := by
    simpa [Message.Inv, Context.inFrame] using hc.control
  state := hc.state
  pending := (inFrame_pending c h step).trans hc.pending

/-- The call makes no callback and leaves nothing to report. -/
def Silent (ty : FrameControlE) (c : Context) (b : Bytes) : Prop :=
  ∃ c' b', (machine ty).run c b = .ok (c', b', []) ∧ c'.state = .kClosed ∧ c'.pending = 0

theorem silent_of_wait (hc : c.Drained) (h : tick ty c b = .ok none) : Silent ty c b :=
  ⟨c, b, (machine ty).run_of_wait h, hc.state, hc.pending⟩

theorem silent_of_tick (h : tick ty c b = .ok (some (c', b', []))) :
    Silent ty c b ↔ Silent ty c' b' := by
  unfold Silent
  rw [run_of_silent_tick h]

theorem not_silent_of_error {e : Failure} (h : tick ty c b = .error e) : ¬ Silent ty c b := by
  rintro ⟨c', b', hr, -⟩
  rw [(machine ty).run_of_error h] at hr
  cases hr

theorem deliver_nil (hc : c.Drained) (hfin : c.header.header.fin = .frameContinue) :
    c.deliver ty [] = .ok (c.endFrame, []) := by
  have hempty : ∀ m : Message, m.messageBuffer = [] →
      (m.append []).unMaskPayloadData c.header.header.mask c.header.maskingKey = m := by
    rintro ⟨t, buf, off⟩ rfl
    simp [Message.append, Message.unMaskPayloadData]
  simp only [Context.deliver, Context.deliverData, Context.deliverControl, hfin,
    hempty _ hc.dataBuffer, hempty _ hc.controlBuffer]
  split_ifs <;> rfl

/-- A payload goes unnoticed exactly if it is empty and more fragments are announced. -/
theorem silent_of_deliver (hc : c'.Drained) (hn : n ≤ b'.length)
    (h : tick ty c b = tickDeliver ty' c' b' n) :
    Silent ty c b ↔
      c'.header.header.fin = .frameContinue ∧ n = 0 ∧ Silent ty c'.endFrame b' := by
  constructor
  · intro hsilent
    rw [tickDeliver] at h
    cases hd : c'.deliver ty' (b'.take n) with
    | error e =>
      rw [hd] at h
      exact absurd hsilent (not_silent_of_error h)
    | ok r =>
      obtain ⟨c₂, b₂, hr, hstate, hpend⟩ := hsilent
      obtain ⟨c₁, o₁⟩ := r
      rw [hd] at h
      obtain ⟨o₂, hr₁, ho⟩ := (machine ty).run_eq_ok_of_tick h hr
      obtain ⟨rfl, rfl⟩ := List.append_eq_nil_iff.mp ho.symm
      obtain ⟨-, hne⟩ | ⟨hfin, -, hp⟩ := deliver_cases hd
      · exact absurd rfl hne
      · -- The run cannot lose what the payload adds.
        have hle : c₁.pending ≤ c₂.pending :=
          steps_pending (Consumer.run_eq_ok_iff _ |>.mp hr₁).1 rfl
        have hzero : n = 0 := by
          rw [List.length_take] at hp
          omega
        subst hzero
        rw [List.take_zero, deliver_nil hc hfin] at hd
        cases hd
        exact ⟨hfin, rfl, _, _, hr₁, hstate, hpend⟩
  · rintro ⟨hfin, rfl, c₂, b₂, hr, hend⟩
    refine ⟨c₂, b₂, ?_, hend⟩
    rw [run_of_tickDeliver h, List.take_zero, deliver_nil hc hfin]
    simp only [Except.bind, List.drop_zero, hr]
    rfl

theorem Context.Drained.endFrame (hc : c.Drained) : c.endFrame.Drained :=
  ⟨⟨hc.dataType, hc.data, hc.control⟩, hc.state, hc.pending⟩

end Drained

section Stages
variable {c : Context} {h : ExtendedHeader} {b : Bytes}

/-- A payload behind a header that is completely read, in the step that reads it. -/
theorem silent_payload (hc : c.Drained)
    (hown : h.header.mask = true → ¬ h.header.BadControl h.header.control) :
    Silent .unControlFrame (c.inFrame h (payloadStep h.header.payloadlen)) b ↔
      (h.header.mask = false ∧ b = []) ∨ b.length < h.getRealDatalen ∨
        (h.header.fin = .frameContinue ∧ h.getRealDatalen = 0 ∧
          Silent .unControlFrame (c.inFrame h .readFrameHeader).endFrame b) := by
  have htick : tick .unControlFrame (c.inFrame h (payloadStep h.header.payloadlen)) b =
      tickPayload .unControlFrame (c.inFrame h (payloadStep h.header.payloadlen)) b :=
    tick_of_isPayload (payloadStep_isPayload _)
  have hbad : ¬ h.header.BadControl (h.header.handlerType .unControlFrame) := by
    unfold Header.handlerType
    split_ifs with hm
    · exact hown hm
    · exact fun hb => hb.1 rfl
  by_cases hempty : h.header.mask = false ∧ b.length = 0
  · have hb : b = [] := List.length_eq_zero_iff.mp hempty.2
    exact iff_of_true (silent_of_wait (hc.inFrame _ _) (htick.trans (if_pos hempty)))
      (.inl ⟨hempty.1, hb⟩)
  · have hne : ¬ (h.header.mask = false ∧ b = []) := fun he => hempty ⟨he.1, by simp [he.2]⟩
    replace htick := (htick.trans (if_neg hempty)).trans (if_neg hbad)
    by_cases hlen : b.length < h.getRealDatalen
    · exact iff_of_true (silent_of_wait (hc.inFrame _ _) (htick.trans (if_pos hlen)))
        (.inr (.inl hlen))
    · rw [silent_of_deliver (hc.inFrame _ _) (not_lt.mp hlen) (htick.trans (if_neg hlen))]
      simp only [hne, hlen, false_or]
      rfl

/-- The masking key and then the payload. -/
theorem silent_maskingkey (hc : c.Drained) (hm : h.header.mask = true) :
    Silent .unControlFrame (c.inFrame h .readMaskingkey) b ↔
      b.length < 4 ∨ (h.header.TypeOk ∧ ¬ h.header.BadControl h.header.control ∧
        ((b.drop 4).length < h.getRealDatalen ∨
          (h.header.fin = .frameContinue ∧ h.getRealDatalen = 0 ∧
            Silent .unControlFrame (c.inFrame h .readFrameHeader).endFrame (b.drop 4)))) := by
  have htick : tick .unControlFrame (c.inFrame h .readMaskingkey) b =
      tickMaskingkey (c.inFrame h .readMaskingkey) b := rfl
  by_cases hlen : b.length < 4
  · exact iff_of_true (silent_of_wait (hc.inFrame _ _) (htick.trans (if_pos hlen))) (.inl hlen)
  replace htick := htick.trans (if_neg hlen)
  simp only [hlen, false_or]
  by_cases hty : h.header.TypeOk
  · replace htick := htick.trans (if_neg (not_not.mpr hty))
    simp only [hty, true_and]
    by_cases hbad : h.header.BadControl h.header.control
    · exact iff_of_false (not_silent_of_error (htick.trans (if_pos hbad))) (fun h => h.1 hbad)
    · have hpay := silent_payload (h := { h with maskingKey := fun i => b.getD i 0 })
        (b := b.drop 4) hc fun _ => hbad
      have hmask : ¬ (h.header.mask = false ∧ b.drop 4 = []) := fun he => by simp [hm] at he
      rw [silent_of_tick (htick.trans (if_neg hbad))]
      exact hpay.trans ((or_iff_right hmask).trans (and_iff_right hbad).symm)
  · simp only [hty, false_and, iff_false]
    exact not_silent_of_error (htick.trans (if_pos hty))

/-- The payload is quiet in the step that follows the length. -/
theorem silent_body {n : ℕ} {r : Bytes} (hc : c.Drained) (hn : h.getRealDatalen = n)
    (hb : payloadStart? b = some (h.header, n, r)) (hshort : ¬ h.header.ShortUnmasked)
    (ih : ∀ (c : Context) (b' : Bytes), b'.length < b.length → c.Boundary → c.Drained →
      (Silent .unControlFrame c b' ↔ Quiet b')) :
    Silent .unControlFrame (c.inFrame h (if h.header.mask then .readMaskingkey
      else payloadStep h.header.payloadlen)) r ↔ Quiet b := by
  have hr := payloadStart?_length hb
  have hnext : ∀ b' : Bytes, b'.length < b.length →
      (Silent .unControlFrame (c.inFrame h .readFrameHeader).endFrame b' ↔ Quiet b') := by
    intro b' hb'
    exact ih _ b' hb' ⟨rfl, rfl⟩ (hc.inFrame h _).endFrame
  rw [quiet_of_some hb]
  cases hm : h.header.mask with
  | true =>
    rw [if_pos rfl, if_pos rfl, silent_maskingkey hc hm, hn,
      hnext (r.drop 4) (by rw [List.length_drop]; omega)]
  | false =>
    rw [if_neg (by decide), if_neg (by decide), silent_payload hc (fun h => by simp [hm] at h), hn,
      hnext r hr]
    simp only [hm, hshort, true_and, not_false_eq_true, and_true]
    exact or_left_comm

theorem silent_extension {k : ℕ} {set : ExtendedHeader → ℕ → ExtendedHeader} {step : StepE}
    (hc : c.Drained) (hset : ∀ n, (set h n).header = h.header)
    (htick : tick .unControlFrame (c.inFrame h step) b =
      tickPayloadlen k set (c.inFrame h step) b) :
    Silent .unControlFrame (c.inFrame h step) b ↔ b.length < k ∨
      Silent .unControlFrame (c.inFrame (set h (beNat (b.take k)))
        (if h.header.mask then .readMaskingkey else payloadStep h.header.payloadlen))
        (b.drop k) := by
  by_cases hlen : b.length < k
  · exact iff_of_true (silent_of_wait (hc.inFrame _ _) (htick.trans (if_pos hlen))) (.inl hlen)
  · have hwith : (c.inFrame h step).withPayloadlen k set b =
        c.inFrame (set h (beNat (b.take k)))
          (if h.header.mask then .readMaskingkey else payloadStep h.header.payloadlen) := by
      simp only [Context.withPayloadlen, Context.inFrame, hset]
      rfl
    rw [tickPayloadlen, if_neg hlen, hwith] at htick
    rw [silent_of_tick htick]
    simp only [hlen, false_or]

end Stages

section Header
variable {c : Context} {b : Bytes}

/-- The header of a frame of which more is to be read before its payload is delivered. -/
theorem silent_header (hc : c.Boundary) (hd : c.Drained) (hlen : 2 ≤ b.length)
    (hlong : ¬ ((headOf b).header.ShortUnmasked ∧
      (headOf b).getRealDatalen ≤ (b.drop 2).length)) :
    Silent .unControlFrame c b ↔
      Silent .unControlFrame (c.inFrame (headOf b) (headOf b).header.nextStep) (b.drop 2) :=
  silent_of_tick
    ((tick_boundary _ hc hlen).trans ((if_neg (not_not.mpr (hd.starts _))).trans (if_neg hlong)))

/-- A short unmasked frame. -/
theorem silent_shortUnmasked (hc : c.Boundary) (hd : c.Drained) (hlen : 2 ≤ b.length)
    (hshort : (headOf b).header.ShortUnmasked) :
    Silent .unControlFrame c b ↔
      (b.drop 2).length < (headOf b).getRealDatalen ∨
      ((headOf b).header.fin = .frameContinue ∧ (headOf b).getRealDatalen = 0 ∧
        Silent .unControlFrame (c.inFrame (headOf b) .readFrameHeader).endFrame (b.drop 2)) := by
  by_cases hn : (headOf b).getRealDatalen ≤ (b.drop 2).length
  · rw [silent_of_deliver (hd.inFrame _ _) hn ((tick_boundary _ hc hlen).trans
      ((if_neg (not_not.mpr (hd.starts _))).trans (if_pos ⟨hshort, hn⟩)))]
    simp only [not_lt.mpr hn, false_or]
    rfl
  · have hstep : (headOf b).header.nextStep = payloadStep (headOf b).header.payloadlen := by
      simp [Header.nextStep, payloadStep, hshort.1, hshort.2.1, hshort.2.2]
    rw [silent_header hc hd hlen (fun h => hn h.2), hstep,
      silent_payload hd (fun h => by simp [hshort.2.2] at h)]
    exact iff_of_true (.inr (.inl (not_le.mp hn))) (.inl (not_le.mp hn))

/-- After a close frame nothing is reported, and nothing gathered, exactly for quiet input. -/
theorem silent_iff_quiet (hc : c.Boundary) (hd : c.Drained) (b : Bytes) :
    Silent .unControlFrame c b ↔ Quiet b := by
  induction hlen : b.length using Nat.strong_induction_on generalizing c b with
  | _ n ih =>
    subst hlen
    replace ih : ∀ (c : Context) (b' : Bytes), b'.length < b.length → c.Boundary → c.Drained →
      (Silent .unControlFrame c b' ↔ Quiet b') := fun c b' hb' hc' hd' => ih _ hb' hc' hd' b' rfl
    by_cases hlen : b.length < 2
    · have hwait : tick .unControlFrame c b = .ok none := by
        rw [tick, hc.step]
        exact if_pos hlen
      exact iff_of_true (silent_of_wait hd hwait) (quiet_of_none (if_pos hlen))
    have hstart : payloadStart? b = _ := if_neg hlen
    by_cases h126 : (headOf b).header.payloadlen = 126
    · replace hstart := hstart.trans (if_pos h126)
      have hnext : (headOf b).header.nextStep = .readExtendedPayloadlenU16 := if_pos h126
      rw [silent_header hc hd (by omega) (fun h => h.1.1 h126), hnext,
        silent_extension hd (fun _ => ExtendedHeader.header_setExtendedPayloadlenU16 _ _) rfl]
      by_cases hr : (b.drop 2).length < 2
      · exact iff_of_true (.inl hr) (quiet_of_none (hstart.trans (if_pos hr)))
      · simp only [hr, false_or]
        exact silent_body hd (getRealDatalen_setU16 (beNat_take_lt (by omega) rfl) h126)
          (hstart.trans (if_neg hr)) (fun h => h.1 h126) ih
    replace hstart := hstart.trans (if_neg h126)
    by_cases h127 : (headOf b).header.payloadlen = 127
    · replace hstart := hstart.trans (if_pos h127)
      have hnext : (headOf b).header.nextStep = .readExtendedPayloadlenI64 :=
        (if_neg h126).trans (if_pos h127)
      rw [silent_header hc hd (by omega) (fun h => h.1.2.1 h127), hnext,
        silent_extension hd (fun _ => ExtendedHeader.header_setExtendedPayloadlenI64 _ _) rfl]
      by_cases hr : (b.drop 2).length < 8
      · exact iff_of_true (.inl hr) (quiet_of_none (hstart.trans (if_pos hr)))
      · simp only [hr, false_or]
        exact silent_body hd (getRealDatalen_setI64 (beNat_take_lt (by omega) rfl) h127)
          (hstart.trans (if_neg hr)) (fun h => h.2.1 h127) ih
    replace hstart : payloadStart? b =
        some ((headOf b).header, ((headOf b).header.payloadlen : ℕ), b.drop 2) :=
      hstart.trans (if_neg h127)
    have hn : (headOf b).getRealDatalen = (headOf b).header.payloadlen :=
      (if_neg h126).trans (if_neg h127)
    by_cases hshort : (headOf b).header.ShortUnmasked
    · have hr := payloadStart?_length hstart
      rw [silent_shortUnmasked hc hd (by omega) hshort, quiet_of_some hstart, hn,
        ih _ _ hr ⟨rfl, rfl⟩ (hd.inFrame _ _).endFrame, if_neg (by simp [hshort.2.2])]
      simp only [hshort, not_true_eq_false, and_false, false_or]
    · have hm : (headOf b).header.mask = true := by
        by_contra hm
        exact hshort ⟨h126, h127, by simpa using hm⟩
      have hnext : (headOf b).header.nextStep = if (headOf b).header.mask then .readMaskingkey
          else payloadStep (headOf b).header.payloadlen := by
        simp [Header.nextStep, h126, h127, hm]
      rw [silent_header hc hd (by omega) (fun h => hshort h.1), hnext]
      exact silent_body hd hn hstart hshort ih

end Header

section Close
variable {ty : FrameControlE} {c c' : Context} {f : WireFrame} {o : List Callback}

/-- A masked close frame that no assertion stops. -/
theorem consume_close_ok (hk : f.key.isSome) (hop : (headerOf f).opcode = .closeMessage)
    (h : c.consume ty f = .ok (c', o)) :
    f.fin = true ∧ f.form ≠ .bits16 ∧ c.controlMessage.messageBuffer = [] := by
  have hcontrol : (headerOf f).opcode.IsControl := .inl hop
  obtain ⟨hs, hty, hbad⟩ := consume_ok h
  refine ⟨?_, fun hform => hbad ⟨frameType_masked_control ty hk hcontrol, ?_⟩, hs.2.2 hcontrol⟩
  · obtain hdata | ⟨-, hfin⟩ := hty hk
    · exact absurd hcontrol hdata.not_isControl
    · cases hf : f.fin with
      | true => rfl
      | false => simp [headerOf, hf, FinE.ofBool] at hfin
  · exact (payloadlen_eq_126_iff f).mpr hform

/-- The context behind a close frame. -/
def Context.closed (c : Context) : Context :=
  { c with
    state := .kClosed
    dataMessage := c.dataMessage.resetMessage
    controlMessage := ⟨.closeMessage, [], 0⟩ }

theorem consume_close (hc : c.Boundary) (hinv : c.Inv) (hk : f.key.isSome)
    (hop : (headerOf f).opcode = .closeMessage) (hfin : f.fin = true) (hform : f.form ≠ .bits16)
    (hb : c.controlMessage.messageBuffer = []) :
    c.consume ty f = .ok (c.closed, [.onClosedCallback f.payload, .forceClose]) := by
  have hcontrol : (headerOf f).opcode.IsControl := .inl hop
  rw [consume_control hc hinv.control hcontrol hfin (frameType_masked_control ty hk hcontrol) hform,
    if_neg (not_not.mpr hb), if_pos hop]
  rfl

theorem Context.closed_boundary (hc : c.Boundary) : c.closed.Boundary := ⟨hc.step, hc.header⟩

theorem Context.closed_drained (hinv : c.Inv) : c.closed.Drained :=
  ⟨⟨hinv.dataType, Message.resetMessage_inv, Nat.le_refl 0⟩, rfl, rfl⟩

/-- A masked close frame ends the messages of a connection, in whatever state the data message
is, exactly if it is a final frame without the 16-bit length form, no control fragment waits,
and quiet input follows. -/
theorem parseFrame_close_iff (handler : ICallbackHandler) (c : Context) (hc : c.Boundary)
    (hinv : c.Inv) (f : WireFrame) (hk : f.key.isSome)
    (hop : (headerOf f).opcode = .closeMessage) (rest : Bytes) (log : List Callback) :
    (∃ w, parseFrame handler ⟨c, f.wire ++ rest, log⟩ = .ok w ∧
        w.callbacks = log ++ [.onClosedCallback f.payload, .forceClose] ∧
        w.context.state = .kClosed ∧ w.context.dataMessage.messageBuffer = [] ∧
        w.context.controlMessage.messageBuffer = []) ↔
      f.fin = true ∧ f.form ≠ .bits16 ∧ c.controlMessage.messageBuffer = [] ∧ Quiet rest := by
  have hne : f.key = none → f.form ≠ .bits7 → f.payload ++ rest ≠ [] := by
    intro h
    simp [h] at hk
  have hquiet := silent_iff_quiet (Context.closed_boundary hc) (Context.closed_drained hinv) rest
  rw [parseFrame_boundary handler hc, run_wire hc hne]
  constructor
  · rintro ⟨w, hw, hlog, hstate, hdata, hctl⟩
    rcases hr : c.consume .unControlFrame f with e | ⟨c₁, o₁⟩
    · rw [hr] at hw
      cases hw
    obtain ⟨hfin, hform, hb⟩ := consume_close_ok hk hop hr
    refine ⟨hfin, hform, hb, hquiet.mp ?_⟩
    rw [consume_close hc hinv hk hop hfin hform hb] at hw
    rcases hr₂ : (machine .unControlFrame).run c.closed rest with e | ⟨c₂, b₂, o₂⟩
    · simp [Except.bind, Except.map, hr₂] at hw
    · simp only [Except.bind, hr₂, Except.map, Except.ok.injEq] at hw
      subst hw
      have ho : o₂ = [] := by simpa [Parser.ofRest, Consumer.Rest.after] using hlog
      subst ho
      exact ⟨c₂, b₂, hr₂, hstate, Context.pending_eq_zero_iff.mpr ⟨hdata, hctl⟩⟩
  · rintro ⟨hfin, hform, hb, hq⟩
    obtain ⟨c₂, b₂, hr, hstate, hpend⟩ := hquiet.mpr hq
    rw [consume_close hc hinv hk hop hfin hform hb]
    simp only [Except.bind, hr, Except.map]
    refine ⟨_, rfl, ?_, hstate, Context.pending_eq_zero_iff.mp hpend⟩
    simp [Parser.ofRest, Consumer.Rest.after]

/-- A close frame with the status code 1000, in the middle of a text message, and the first
byte of another frame. -/
theorem parseFrame_close_iff_status :
    ∃ w, parseFrame .retrieveAll
        ⟨{ Context.connected with dataMessage := ⟨.textMessage, [0x48], 1⟩ },
        WireFrame.wire ⟨⟨true, 8, some ![1, 2, 3, 4], [0x03, 0xe8]⟩, .bits7, by decide⟩ ++ [0x81],
        []⟩ = .ok w ∧
      w.callbacks = [] ++ [.onClosedCallback [0x03, 0xe8], .forceClose] ∧
      w.context.state = .kClosed ∧ w.context.dataMessage.messageBuffer = [] ∧
      w.context.controlMessage.messageBuffer = [] :=
  (parseFrame_close_iff .retrieveAll
    { Context.connected with dataMessage := ⟨.textMessage, [0x48], 1⟩ } ⟨rfl, rfl⟩
    ⟨.inl rfl, Nat.le_refl 1, Nat.le_refl 0⟩ _ rfl rfl [0x81] []).mpr
    ⟨rfl, by decide, rfl, quiet_of_none rfl⟩

/-- The text frame behind an empty close frame is delivered. -/
theorem parseFrame_text_after_close :
    (parseFrame .retrieveAll ⟨.connected,
        WireFrame.wire ⟨⟨true, 8, some ![1, 2, 3, 4], []⟩, .bits7, by decide⟩ ++
          WireFrame.wire ⟨⟨true, 1, some ![1, 2, 3, 4], [0x41]⟩, .bits7, by decide⟩, []⟩).map
        (·.callbacks) =
      .ok [.onClosedCallback [], .forceClose, .onMessageCallback [0x41] .textMessage] := by
  rfl

end Close

end LibWebsocket.Websocket
