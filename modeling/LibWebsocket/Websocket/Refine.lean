import LibWebsocket.Websocket.Readers

/-! `parse_frame` runs the machine. One iteration of its loop makes one or more ticks: a
function that reads a field calls the next reader directly, and drops its answer when it
was called for a header. -/
namespace LibWebsocket.Websocket
open Lib Rfc6455

/-- The step of a context agrees with the fields read so far. -/
def Context.Shape (c : Context) : Prop :=
  match c.step with
  | .readFrameHeader => c.header = .zero
  | .readExtendedPayloadlenU16 => c.header.header.payloadlen = 126
  | .readExtendedPayloadlenI64 => c.header.header.payloadlen = 127
  | .readMaskingkey => c.header.header.mask = true
  | _ => c.step = payloadStep c.header.header.payloadlen ∧
    (c.header.header.mask = true →
      c.header.header.TypeOk ∧ ¬ c.header.header.BadControl c.header.header.control)

/-- A context between two calls: a masked payload that is awaited is not empty. -/
def Context.Settled (c : Context) : Prop :=
  c.Shape ∧ (c.step.IsPayload → c.header.header.mask = true → 0 < c.header.getRealDatalen)

/-- The head of the loop. The type computed before the loop may be that of another frame
while a masked payload is incomplete. -/
def AtHead (ty : FrameControlE) (c : Context) (b : Bytes) : Prop :=
  c.Settled ∧ (c.step.IsPayload → c.header.header.mask = true → ty ≠ c.header.header.control →
    b.length < c.header.getRealDatalen ∧ c.header.header.payloadlen ≠ 126)

theorem Context.shape_of_isPayload {c : Context} (h : c.step.IsPayload) :
    c.Shape ↔ c.step = payloadStep c.header.header.payloadlen ∧
      (c.header.header.mask = true →
        c.header.header.TypeOk ∧ ¬ c.header.header.BadControl c.header.header.control) := by
  unfold Context.Shape
  rcases h with h | h | h <;> rw [h]

/-- What the code's answer says about the machine: it has failed in the same way, or has
ticked to the answer's configuration, where it waits if bytes are missing. -/
def Refines (ty : FrameControlE) (w : Parser) : Except Failure (Bool × Parser) → Prop
  | .error e => (machine ty).run w.context w.buf = .error e
  | .ok (enough, w') => ∃ o, w'.callbacks = w.callbacks ++ o ∧
      (machine ty).Steps w.context w.buf o w'.context w'.buf ∧
      if enough then AtHead ty w'.context w'.buf ∧
        tickSize w'.context w'.buf < tickSize w.context w.buf
      else tick ty w'.context w'.buf = .ok none

section Refinement
variable {handler : ICallbackHandler} {ty : FrameControlE} {w w₁ : Parser} {o : List Callback}
  {r : Except Failure (Bool × Parser)}

theorem atHead_of_not_isPayload {c : Context} {b : Bytes} (hc : c.Shape)
    (hp : ¬ c.step.IsPayload) : AtHead ty c b :=
  ⟨⟨hc, fun h => absurd h hp⟩, fun h => absurd h hp⟩

theorem Refines.wait (h : tick ty w.context w.buf = .ok none) : Refines ty w (.ok (false, w)) :=
  ⟨[], by simp, .refl _ _, h⟩

theorem Refines.error {e : Failure} (h : tick ty w.context w.buf = .error e) :
    Refines ty w (.error e) :=
  (machine ty).run_of_error h

theorem Refines.enough (h : tick ty w.context w.buf = .ok (some (w₁.context, w₁.buf, o)))
    (hc : w₁.callbacks = w.callbacks ++ o) (hw : AtHead ty w₁.context w₁.buf) :
    Refines ty w (.ok (true, w₁)) :=
  ⟨o, hc, (machine ty).steps_of_tick h, hw, tick_size h⟩

theorem Refines.head (h : tick ty w.context w.buf = .ok (some (w₁.context, w₁.buf, o)))
    (hc : w₁.callbacks = w.callbacks ++ o) (hr : Refines ty w₁ r) : Refines ty w r := by
  rcases r with e | ⟨enough, w'⟩
  · simp only [Refines] at hr ⊢
    rw [(machine ty).run_of_tick h, hr]
    rfl
  · obtain ⟨o', hc', hs, hend⟩ := hr
    refine ⟨o ++ o', by rw [hc', hc, List.append_assoc], .head h hs, ?_⟩
    have := tick_size h
    cases enough with
    | false => exact hend
    | true => exact ⟨hend.1, by have := hend.2; omega⟩

/-- The answer of a reader that was called for a header is dropped. -/
theorem Refines.dropped (h : tick ty w.context w.buf = .ok (some (w₁.context, w₁.buf, o)))
    (hc : w₁.callbacks = w.callbacks ++ o) (hr : Refines ty w₁ r)
    (hwait : ∀ w', r = .ok (false, w') → AtHead ty w'.context w'.buf) :
    Refines ty w (r >>= fun x => .ok (true, x.2)) := by
  have hw := Refines.head h hc hr
  rcases r with e | ⟨enough, w'⟩
  · exact hw
  · obtain ⟨o₁, -, hs₁, -⟩ := hr
    obtain ⟨o', hc', hs, hend⟩ := hw
    refine ⟨o', hc', hs, ?_⟩
    cases enough with
    | false =>
      have hle := (machine ty).steps_size_le hs₁
      exact ⟨hwait w' rfl, lt_of_le_of_lt hle (tick_size h)⟩
    | true => exact hend

theorem shape_of_deliver {ty' : FrameControlE} {c c' : Context} {p : Bytes}
    (h : c.deliver ty' p = .ok (c', o)) : c'.Shape := by
  obtain ⟨hstep, hheader⟩ := deliver_step h
  rw [Context.Shape, hstep]
  exact hheader

theorem atHead_deliver {ty' : FrameControlE} {c c' : Context} {p b : Bytes}
    (h : c.deliver ty' p = .ok (c', o)) :
    AtHead ty c' b := by
  exact atHead_of_not_isPayload (shape_of_deliver h) (by rw [(deliver_step h).1]; decide)

theorem Refines.deliver {ty' : FrameControlE} {n : ℕ}
    (h : tick ty w.context w.buf = tickDeliver ty' w₁.context w₁.buf n)
    (hc : w₁.callbacks = w.callbacks) :
    Refines ty w ((w₁.context.deliver ty' (w₁.buf.take n)).map (w₁.delivered n)) := by
  unfold tickDeliver at h
  cases hd : w₁.context.deliver ty' (w₁.buf.take n) with
  | error e =>
    rw [hd] at h
    exact .error h
  | ok x =>
    rw [hd] at h
    exact .enough h (by simp [hc]) (atHead_deliver hd)

theorem atHead_unmasked {c : Context} {b : Bytes}
    (hs : c.step = payloadStep c.header.header.payloadlen) (hm : c.header.header.mask = false) :
    AtHead ty c b := by
  have hmask : ¬ c.header.header.mask = true := by simp [hm]
  refine ⟨⟨?_, fun _ h => absurd h hmask⟩, fun _ h => absurd h hmask⟩
  rw [Context.shape_of_isPayload (hs ▸ payloadStep_isPayload _)]
  exact ⟨hs, fun h => absurd h hmask⟩

/-- A payload handler that is called with the type the machine uses. -/
theorem payloadHandler_refines
    (hs : w.context.step = payloadStep w.context.header.header.payloadlen)
    (hb : w.context.header.header.mask = false → 0 < w.buf.length) :
    Refines ty w (payloadHandler handler (w.context.header.header.handlerType ty)
      w.context.header.header.payloadlen w) := by
  have htick : tick ty w.context w.buf = tickPayload ty w.context w.buf :=
    tick_of_isPayload (hs ▸ payloadStep_isPayload _)
  have hempty : ¬ (w.context.header.header.mask = false ∧ w.buf.length = 0) :=
    fun h => by have := hb h.1; omega
  rw [tickPayload, if_neg hempty] at htick
  rw [payloadHandler_eq handler w _ hs]
  split_ifs at htick ⊢
  · exact .error htick
  · exact .wait htick
  · exact .deliver htick rfl

theorem parseFrameReadExtendedPayloadlen_refines {k : PayloadlenKind} (hk : k.Sound)
    (hn : w.context.header.header.payloadlen = k.payloadlen) (hs : w.context.step = k.step)
    (htick : tick ty w.context w.buf =
      tickPayloadlen k.width k.setExtendedPayloadlen w.context w.buf) :
    Refines ty w (parseFrameReadExtendedPayloadlen k w) := by
  rw [parseFrameReadExtendedPayloadlen_eq w hk hn hs]
  unfold tickPayloadlen at htick
  by_cases hlen : w.buf.length < k.width
  · rw [if_pos hlen] at htick ⊢
    exact .wait htick
  rw [if_neg hlen] at htick ⊢
  apply Refines.enough htick (by simp)
  by_cases hm : w.context.header.header.mask = true
  · apply atHead_of_not_isPayload <;>
      simp [Context.withPayloadlen, Context.Shape, hm, hk.header, StepE.IsPayload]
  · apply atHead_unmasked <;> simp [Context.withPayloadlen, hm, hk.header]

theorem parseFrameReadExtendedPayloadlen_wait {k : PayloadlenKind} {w' : Parser} (hk : k.Sound)
    (hn : w.context.header.header.payloadlen = k.payloadlen) (hs : w.context.step = k.step)
    (h : parseFrameReadExtendedPayloadlen k w = .ok (false, w')) : w = w' := by
  rw [parseFrameReadExtendedPayloadlen_eq w hk hn hs] at h
  split_ifs at h <;> cases h
  rfl

theorem parseFrameReadMaskingkey_refines (hm : w.context.header.header.mask = true)
    (hs : w.context.step = .readMaskingkey) :
    Refines ty w (parseFrameReadMaskingkey handler w) := by
  have htick : tick ty w.context w.buf = tickMaskingkey w.context w.buf := by
    unfold tick
    rw [hs]
  rw [parseFrameReadMaskingkey_eq handler w hm hs]
  unfold tickMaskingkey at htick
  by_cases hlen : w.buf.length < 4
  · rw [if_pos hlen] at htick ⊢
    exact .wait htick
  rw [if_neg hlen] at htick ⊢
  by_cases hty : w.context.header.header.TypeOk
  · rw [if_neg (not_not.mpr hty)] at htick ⊢
    have hcontrol : w.context.header.header.handlerType ty = w.context.header.header.control := by
      simp [Header.handlerType, hm]
    by_cases hbad : w.context.header.header.BadControl w.context.header.header.control
    · rw [if_pos hbad] at htick
      have h := payloadHandler_eq handler w.keyRead w.context.header.header.control rfl
      have hkey : w.keyRead.context.header.header.BadControl w.context.header.header.control := hbad
      rw [if_pos hkey, Parser.keyRead_header] at h
      exact h ▸ Refines.error htick
    · rw [if_neg hbad] at htick
      have h : Refines ty w.keyRead (payloadHandler handler
          (w.keyRead.context.header.header.handlerType ty) _ w.keyRead) :=
        payloadHandler_refines rfl (by simp [hm])
      simp only [Parser.keyRead_header, hcontrol] at h
      exact Refines.head htick (by simp [Parser.keyRead]) h
  · rw [if_pos hty] at htick ⊢
    exact .error htick

theorem bodyReader_refines (hs : w.context.step = w.context.header.header.nextStep)
    (hshort : ¬ w.context.header.header.ShortUnmasked) :
    Refines ty w (bodyReader handler w.context.header.header w) := by
  unfold bodyReader
  unfold Header.nextStep at hs
  split_ifs at hs ⊢ with h126 h127 hm
  · apply parseFrameReadExtendedPayloadlen_refines PayloadlenKind.u16_sound h126 hs
    rw [tick, hs]
    rfl
  · apply parseFrameReadExtendedPayloadlen_refines PayloadlenKind.i64_sound h127 hs
    rw [tick, hs]
    rfl
  · exact parseFrameReadMaskingkey_refines hm hs
  · exact absurd ⟨h126, h127, by simpa using hm⟩ hshort

/-- A short unmasked payload goes to the control handler, and is left to the loop while it
is incomplete. -/
theorem bodyReader_dropped_refines (hs : w₁.context.step = w₁.context.header.header.nextStep)
    (hshort : w₁.context.header.header.ShortUnmasked) (hc : w₁.callbacks = w.callbacks)
    (htick : tick ty w.context w.buf =
      if w₁.context.header.getRealDatalen ≤ w₁.buf.length then
        tickDeliver .controlFrame w₁.context w₁.buf w₁.context.header.getRealDatalen
      else .ok (some (w₁.context, w₁.buf, []))) :
    Refines ty w
      (bodyReader handler w₁.context.header.header w₁ >>= fun x => .ok (true, x.2)) := by
  have hpayload : w₁.context.step = payloadStep w₁.context.header.header.payloadlen := by
    simp [hs, Header.nextStep, payloadStep, hshort.1, hshort.2.1, hshort.2.2]
  rw [bodyReader_of_shortUnmasked hshort, payloadHandler_eq handler w₁ _ hpayload,
    if_neg (fun h => hshort.1 h.2)]
  by_cases hL : w₁.context.header.getRealDatalen ≤ w₁.buf.length
  · rw [if_pos hL] at htick
    rw [if_neg (not_lt.mpr hL)]
    have h := Refines.deliver htick hc
    cases hd : w₁.context.deliver .controlFrame
        (w₁.buf.take w₁.context.header.getRealDatalen) with
    | error e => rwa [hd] at h
    | ok x => rwa [hd] at h
  · rw [if_neg hL] at htick
    rw [if_pos (not_le.mp hL), ok_bind]
    exact .enough htick (by simp [hc]) (atHead_unmasked hpayload hshort.2.2)

/-- Where the key was read and the payload is awaited, `ty` may be that of another frame. -/
theorem atHead_of_bodyReader {w' : Parser}
    (hs : w.context.step = w.context.header.header.nextStep)
    (hshort : ¬ w.context.header.header.ShortUnmasked)
    (h : bodyReader handler w.context.header.header w = .ok (false, w')) :
    AtHead ty w'.context w'.buf := by
  unfold bodyReader at h
  unfold Header.nextStep at hs
  split_ifs at hs h with h126 h127 hm
  · obtain rfl := parseFrameReadExtendedPayloadlen_wait PayloadlenKind.u16_sound h126 hs h
    exact atHead_of_not_isPayload (by rw [Context.Shape, hs]; exact h126) (by rw [hs]; decide)
  · obtain rfl := parseFrameReadExtendedPayloadlen_wait PayloadlenKind.i64_sound h127 hs h
    exact atHead_of_not_isPayload (by rw [Context.Shape, hs]; exact h127) (by rw [hs]; decide)
  · rw [parseFrameReadMaskingkey_eq handler w hm hs] at h
    split_ifs at h with hlen hty
    · cases h
      exact atHead_of_not_isPayload (by rw [Context.Shape, hs]; exact hm) (by rw [hs]; decide)
    · have hbad : ∀ ty, ¬ w.keyRead.context.header.header.BadControl ty := fun _ hb => h126 hb.2
      have hp : w.keyRead.context.step.IsPayload := payloadStep_isPayload _
      rw [← Parser.keyRead_header, payloadHandler_eq handler w.keyRead _ rfl,
        if_neg (hbad _)] at h
      split_ifs at h with hL
      · cases h
        refine ⟨⟨?_, fun _ _ => by omega⟩, fun _ _ _ => ⟨hL, h126⟩⟩
        rw [Context.shape_of_isPayload hp]
        exact ⟨rfl, fun _ => ⟨hty, hbad _⟩⟩
      · cases hd : w.keyRead.context.deliver w.keyRead.context.header.header.control
          (w.keyRead.buf.take w.keyRead.context.header.getRealDatalen) <;> rw [hd] at h <;> cases h
  · exact absurd ⟨h126, h127, by simpa using hm⟩ hshort

theorem parseFrameReadFrameHeader_refines (hs : w.context.step = .readFrameHeader) :
    Refines ty w (parseFrameReadFrameHeader handler w) := by
  have htick : tick ty w.context w.buf = tickFrameHeader w.context w.buf := by
    unfold tick
    rw [hs]
  unfold tickFrameHeader at htick
  by_cases hlen : w.buf.length < 2
  · rw [if_pos hlen] at htick
    unfold parseFrameReadFrameHeader
    rw [assert_pos hs, ok_bind, if_pos hlen]
    exact .wait htick
  rw [if_neg hlen] at htick
  rw [parseFrameReadFrameHeader_eq hs (by omega)]
  by_cases hst : (w.context.withHeader w.buf).Startable
  · rw [if_neg (not_not.mpr hst)] at htick
    rw [if_pos hst]
    have hc : w.headerRead.callbacks = w.callbacks ++ [] := by simp [Parser.headerRead]
    have hstep := w.context.headerRead_step w.buf
    by_cases hshort : (w.context.headerRead w.buf).header.header.ShortUnmasked
    · refine bodyReader_dropped_refines hstep hshort rfl ?_
      simp only [hshort, true_and] at htick
      exact htick
    · rw [if_neg (fun h => hshort h.1)] at htick
      exact .dropped htick hc (bodyReader_refines hstep hshort)
        (fun w' h => atHead_of_bodyReader hstep hshort h)
  · rw [if_pos hst] at htick
    rw [if_neg hst]
    exact .error htick

theorem parseFrameStep_refines (hty : ty ≠ .frameInvalid) (hw : AtHead ty w.context w.buf)
    (hb : 0 < w.buf.length) : Refines ty w (parseFrameStep handler ty w) := by
  obtain ⟨⟨hshape, hpos⟩, hstale⟩ := hw
  by_cases hp : w.context.step.IsPayload
  · obtain ⟨hs, hmask⟩ := (Context.shape_of_isPayload hp).mp hshape
    rw [parseFrameStep_payload hty hs]
    by_cases hown : w.context.header.header.handlerType ty = ty
    · have h : Refines ty w (payloadHandler handler _ _ w) := payloadHandler_refines hs fun _ => hb
      rwa [hown] at h
    -- the type is stale, so the payload is incomplete and both handlers wait
    have hm : w.context.header.header.mask = true := by
      by_contra hm
      exact hown (by simp [Header.handlerType, hm])
    have hcontrol : w.context.header.header.handlerType ty = w.context.header.header.control := by
      simp [Header.handlerType, hm]
    obtain ⟨hL, h126⟩ := hstale hp hm (fun h => hown (hcontrol.trans h.symm))
    rw [payloadHandler_eq handler w ty hs, if_neg (fun h => h126 h.2), if_pos hL]
    apply Refines.wait
    rw [tick_of_isPayload hp, tickPayload_of_masked ty _ hm, if_neg (fun h => h126 h.2), if_pos hL]
  · unfold Context.Shape at hshape
    unfold parseFrameStep
    split at hshape
    case h_1 hs =>
      rw [hs]
      exact parseFrameReadFrameHeader_refines hs
    case h_2 hs =>
      rw [hs]
      apply parseFrameReadExtendedPayloadlen_refines PayloadlenKind.u16_sound hshape hs
      rw [tick, hs]
      rfl
    case h_3 hs =>
      rw [hs]
      apply parseFrameReadExtendedPayloadlen_refines PayloadlenKind.i64_sound hshape hs
      rw [tick, hs]
      rfl
    case h_4 hs =>
      rw [hs]
      exact parseFrameReadMaskingkey_refines hshape hs
    case h_5 =>
      exact absurd (hshape.1 ▸ payloadStep_isPayload _) hp

/-- What a run of the machine makes of a parser. -/
def Parser.ofRest (w : Parser) (r : Consumer.Rest Context UInt8 Callback) : Parser :=
  ⟨r.1, r.2.1, w.callbacks ++ r.2.2⟩

theorem Parser.ofRest_after (hc : w₁.callbacks = w.callbacks ++ o)
    (r : Consumer.Rest Context UInt8 Callback) :
    w₁.ofRest r = w.ofRest (Consumer.Rest.after o r) := by
  simp [Parser.ofRest, Consumer.Rest.after, hc]

theorem shape_headerRead (c : Context) (b : Bytes) : (c.headerRead b).Shape := by
  have hs := c.headerRead_step b
  by_cases hp : (c.headerRead b).step.IsPayload
  · rw [Context.shape_of_isPayload hp]
    rw [hs, Header.nextStep] at hp ⊢
    rw [payloadStep]
    split_ifs at hp ⊢ with h126 h127 hm
    · exact absurd hp (by decide)
    · exact absurd hp (by decide)
    · exact absurd hp (by decide)
    · exact ⟨rfl, fun h => absurd h hm⟩
  · unfold Context.Shape
    rw [hs, Header.nextStep] at hp ⊢
    split_ifs at hp ⊢ with h126 h127 hm
    · exact h126
    · exact h127
    · exact hm
    · exact absurd (by decide) hp

theorem shape_withPayloadlen {k : ℕ} {set : ExtendedHeader → ℕ → ExtendedHeader}
    (hset : ∀ h n, (set h n).header = h.header) (c : Context) (b : Bytes) :
    (c.withPayloadlen k set b).Shape := by
  by_cases hm : c.header.header.mask = true
  · simp [Context.withPayloadlen, Context.Shape, hm, hset]
  · have hs : (c.withPayloadlen k set b).step = payloadStep c.header.header.payloadlen := by
      simp [Context.withPayloadlen, hm]
    rw [Context.shape_of_isPayload (hs ▸ payloadStep_isPayload _)]
    simp [Context.withPayloadlen, hm, hset]

/-- Every tick leaves the step in agreement with the fields. -/
theorem tick_shape {c c' : Context} {b b' : Bytes} (h : tick ty c b = .ok (some (c', b', o))) :
    c'.Shape := by
  unfold tick at h
  split at h
  case h_1 =>
    obtain ⟨-, -, ⟨-, -, hd, -⟩ | ⟨-, rfl, -, -⟩⟩ := tickFrameHeader_ok h
    · exact shape_of_deliver hd
    · exact shape_headerRead c b
  case h_2 =>
    obtain ⟨-, -, -, rfl⟩ := tickPayloadlen_ok h
    exact shape_withPayloadlen ExtendedHeader.header_setExtendedPayloadlenU16 c b
  case h_3 =>
    obtain ⟨-, -, -, rfl⟩ := tickPayloadlen_ok h
    exact shape_withPayloadlen ExtendedHeader.header_setExtendedPayloadlenI64 c b
  case h_4 =>
    obtain ⟨-, hty, hbad, -, -, rfl⟩ := tickMaskingkey_ok h
    rw [Context.shape_of_isPayload (payloadStep_isPayload _)]
    exact ⟨rfl, fun _ => ⟨hty, hbad⟩⟩
  all_goals
    obtain ⟨-, -, -, hd, -⟩ := tickPayload_ok h
    exact shape_of_deliver hd

theorem settled_of_wait {c : Context} {b : Bytes} (hc : c.Shape)
    (h : tick ty c b = .ok none) : c.Settled := by
  refine ⟨hc, fun hp hm => ?_⟩
  rw [tick_of_isPayload hp, tickPayload_of_masked ty _ hm] at h
  split_ifs at h with hbad hL
  · omega
  · unfold tickDeliver at h
    cases hd : c.deliver c.header.header.control
      (b.take c.header.getRealDatalen) <;> rw [hd] at h <;> cases h

theorem run_settled {c c' : Context} {b b' : Bytes} (hc : c.Settled)
    (h : (machine ty).run c b = .ok (c', b', o)) : c'.Settled := by
  obtain ⟨hs, hwait⟩ := (machine ty).run_eq_ok_iff.mp h
  have hshape : c'.Shape :=
    Consumer.Steps.invariant (P := fun c _ => c.Shape) (machine ty) (fun _ ht => tick_shape ht)
      hs hc.1
  exact settled_of_wait hshape hwait

theorem tick_nil {c : Context} (hc : c.Settled) : tick ty c [] = .ok none := by
  obtain ⟨hshape, hpos⟩ := hc
  by_cases hp : c.step.IsPayload
  · rw [tick_of_isPayload hp]
    by_cases hm : c.header.header.mask = true
    · have hbad := (((Context.shape_of_isPayload hp).mp hshape).2 hm).2
      rw [tickPayload_of_masked ty _ hm, if_neg hbad, if_pos (by simpa using hpos hp hm)]
    · rw [tickPayload, if_pos ⟨by simpa using hm, rfl⟩]
  · unfold tick
    cases hs : c.step <;> first | rfl | exact absurd (by rw [hs]; decide) hp

theorem parseFrameLoop_eq (hty : ty ≠ .frameInvalid) (fuel : ℕ)
    (hw : AtHead ty w.context w.buf) (hfuel : tickSize w.context w.buf < fuel) :
    parseFrameLoop handler ty fuel w = ((machine ty).run w.context w.buf).map w.ofRest := by
  induction fuel generalizing w with
  | zero => omega
  | succ fuel ih =>
    rw [parseFrameLoop]
    split_ifs with hb
    · have h : Refines ty w (parseFrameStep handler ty w) := parseFrameStep_refines hty hw hb
      rcases hr : parseFrameStep handler ty w with e | ⟨enough, w'⟩
      · rw [hr] at h
        rw [h]
        rfl
      · rw [hr] at h
        obtain ⟨o, hc, hs, hend⟩ := h
        rw [(machine ty).run_of_steps hs, ok_bind]
        cases enough with
        | false =>
          rw [(machine ty).run_of_wait hend]
          obtain ⟨c', b', cb'⟩ := w'
          simp only at hc
          simp [Except.map, Parser.ofRest, Consumer.Rest.after, hc]
        | true =>
          have hlt := hend.2
          simp only [if_true]
          rw [ih hend.1 (by omega)]
          cases (machine ty).run w'.context w'.buf with
          | error e => rfl
          | ok r => exact congrArg Except.ok (Parser.ofRest_after hc r)
    · have hnil : w.buf = [] := by simpa using hb
      rw [hnil, (machine ty).run_of_wait (tick_nil hw.1)]
      simp [Except.map, Parser.ofRest, ← hnil]

theorem parseFrame_eq (handler : ICallbackHandler) (hw : w.context.Settled) :
    parseFrame handler w =
      if w.context.header.header.TypeOk then
        ((machine w.context.header.header.control).run w.context w.buf).map w.ofRest
      else .error (.assertion .getFrameControlMessageType) := by
  unfold parseFrame
  rw [getFrameControlMessageType_bind _ fun ty => parseFrameLoop handler ty (loopFuel w) w]
  split_ifs with hty
  · refine parseFrameLoop_eq (Header.control_ne_frameInvalid _) _
      ⟨hw, fun _ _ h => absurd rfl h⟩ ?_
    unfold tickSize loopFuel
    split_ifs <;> omega
  · rfl

end Refinement

end LibWebsocket.Websocket
