import LibWebsocket.Websocket.Invariant

/-! Which input makes an assertion of the parser fail. The machine fails on a field exactly if
the field is refused, so a call returns exactly if no field that it reads is. -/
namespace LibWebsocket.Websocket
open Lib Rfc6455

/-- A final frame is delivered by the handler of its own kind. -/
def Header.Deliverable (h : Header) (ty : FrameControlE) : Prop :=
  h.fin = .frameFinished → if ty = .unControlFrame then h.opcode.IsData else h.opcode.IsControl

instance (h : Header) (ty : FrameControlE) : Decidable (h.Deliverable ty) :=
  inferInstanceAs (Decidable
    (_ → if ty = .unControlFrame then h.opcode.IsData else h.opcode.IsControl))

/-- The field at the front of the buffer, as far as it is complete, is not refused. A header
must fit the messages in progress; a masked frame must have a known opcode, and FIN and no
16-bit length if it is a control frame; a payload must reach the handler of its opcode. -/
def Context.Accepts (ty : FrameControlE) (c : Context) (b : Bytes) : Prop :=
  match c.step with
  | .readFrameHeader => 2 ≤ b.length → (c.withHeader b).Startable ∧
      ((c.headerRead b).header.header.ShortUnmasked →
        (c.headerRead b).header.getRealDatalen ≤ (b.drop 2).length →
        (c.headerRead b).header.header.Deliverable .controlFrame)
  | .readExtendedPayloadlenU16 | .readExtendedPayloadlenI64 => True
  | .readMaskingkey => 4 ≤ b.length →
      c.header.header.TypeOk ∧ ¬ c.header.header.BadControl c.header.header.control
  | .readPayloadData | .readExtendedPayloadDataU16 | .readExtendedPayloadDataI64 =>
      ¬ (c.header.header.mask = false ∧ b.length = 0) →
        ¬ c.header.header.BadControl (c.header.header.handlerType ty) ∧
        (c.header.getRealDatalen ≤ b.length →
          c.header.header.Deliverable (c.header.header.handlerType ty))

section Tick
variable {ty : FrameControlE} {c : Context} {b p : Bytes} {n : ℕ}

theorem deliver_isOk_iff :
    (∃ r, c.deliver ty p = .ok r) ↔ c.header.header.Deliverable ty := by
  unfold Context.deliver Header.Deliverable Context.deliverData Context.deliverControl
  cases c.header.header.fin with
  | frameContinue => split_ifs <;> simp
  | frameFinished =>
    by_cases hty : ty = .unControlFrame
    · simp only [if_pos hty, true_implies]
      split_ifs with hop <;> simp [hop]
    · simp only [if_neg hty, true_implies]
      cases c.header.header.opcode <;> simp [OpcodeE.IsControl]

theorem tickDeliver_isOk_iff :
    (∃ t, tickDeliver ty c b n = .ok t) ↔ c.header.header.Deliverable ty := by
  rw [← deliver_isOk_iff (p := b.take n), tickDeliver]
  cases c.deliver ty (b.take n) <;> simp [Except.map]

theorem tickFrameHeader_isOk_iff :
    (∃ t, tickFrameHeader c b = .ok t) ↔ (2 ≤ b.length → (c.withHeader b).Startable ∧
      ((c.headerRead b).header.header.ShortUnmasked →
        (c.headerRead b).header.getRealDatalen ≤ (b.drop 2).length →
        (c.headerRead b).header.header.Deliverable .controlFrame)) := by
  unfold tickFrameHeader
  by_cases hlen : b.length < 2
  · simp [hlen, not_le.mpr hlen]
  by_cases hs : (c.withHeader b).Startable
  · rw [if_neg hlen, if_neg (not_not.mpr hs)]
    simp only [not_lt.mp hlen, hs, true_implies, true_and]
    split_ifs with hshort
    · rw [tickDeliver_isOk_iff]
      simp only [hshort, true_implies]
    · refine iff_of_true ⟨_, rfl⟩ fun h1 h2 => absurd ⟨h1, h2⟩ hshort
  · simp [hlen, hs, not_lt.mp hlen]

theorem tickMaskingkey_isOk_iff :
    (∃ t, tickMaskingkey c b = .ok t) ↔ (4 ≤ b.length →
      c.header.header.TypeOk ∧ ¬ c.header.header.BadControl c.header.header.control) := by
  unfold tickMaskingkey
  split_ifs with hlen hty hbad
  · simp [not_le.mpr hlen]
  · simp [not_lt.mp hlen, hbad]
  · simp [hty, hbad]
  · simp [not_lt.mp hlen, hty]

theorem tickPayload_isOk_iff :
    (∃ t, tickPayload ty c b = .ok t) ↔ (¬ (c.header.header.mask = false ∧ b.length = 0) →
      ¬ c.header.header.BadControl (c.header.header.handlerType ty) ∧
      (c.header.getRealDatalen ≤ b.length →
        c.header.header.Deliverable (c.header.header.handlerType ty))) := by
  unfold tickPayload
  by_cases hempty : c.header.header.mask = false ∧ b.length = 0
  · simp [hempty]
  rw [if_neg hempty]
  simp only [hempty, not_false_eq_true, true_implies]
  by_cases hbad : c.header.header.BadControl (c.header.header.handlerType ty)
  · simp [hbad]
  rw [if_neg hbad]
  simp only [hbad, not_false_eq_true, true_and]
  split_ifs with hlen
  · exact iff_of_true ⟨_, rfl⟩ fun h => absurd h (not_le.mpr hlen)
  · rw [tickDeliver_isOk_iff]
    simp only [not_lt.mp hlen, true_implies]

/-- The machine fails exactly on a refused field. -/
theorem tick_isOk_iff : (∃ t, tick ty c b = .ok t) ↔ c.Accepts ty b := by
  unfold tick Context.Accepts
  cases c.step with
  | readFrameHeader => exact tickFrameHeader_isOk_iff
  | readExtendedPayloadlenU16 | readExtendedPayloadlenI64 =>
    unfold tickPayloadlen
    split_ifs <;> simp
  | readMaskingkey => exact tickMaskingkey_isOk_iff
  | readPayloadData | readExtendedPayloadDataU16 | readExtendedPayloadDataI64 =>
    exact tickPayload_isOk_iff

end Tick

/-- One call: the type is computed from the header stored so far, and every field on the way
is accepted. -/
def Parser.Accepts (w : Parser) : Prop :=
  w.context.header.header.TypeOk ∧
    ∀ o c b, (machine w.context.header.header.control).Steps w.context w.buf o c b →
      c.Accepts w.context.header.header.control b

/-- Every call that is reached while the chunks arrive accepts its input. -/
def Conforms (handler : ICallbackHandler) (w : Parser) : List Bytes → Prop
  | [] => True
  | chunk :: chunks =>
    let w := { w with buf := w.buf ++ chunk }
    w.Accepts ∧ ∀ w', parseFrame handler w = .ok w' → Conforms handler w' chunks

theorem parseFrame_isOk_iff (handler : ICallbackHandler) {w : Parser} (hw : w.context.Settled) :
    (∃ w', parseFrame handler w = .ok w') ↔ w.Accepts := by
  unfold Parser.Accepts
  rw [parseFrame_eq handler hw]
  by_cases hty : w.context.header.header.TypeOk
  · rw [if_pos hty, and_iff_right hty]
    have hrun := (machine w.context.header.header.control).run_isOk_iff
      (s := w.context) (b := w.buf)
    simp only [machine_tick, tick_isOk_iff] at hrun
    rw [← hrun]
    cases (machine w.context.header.header.control).run w.context w.buf <;> simp [Except.map]
  · simp [hty]

theorem feed_isOk_iff (handler : ICallbackHandler) (chunks : List Bytes) {w : Parser}
    (hw : w.context.Reached) :
    (∃ w', feed handler w chunks = .ok w') ↔ Conforms handler w chunks := by
  induction chunks generalizing w with
  | nil => exact iff_of_true ⟨w, rfl⟩ trivial
  | cons chunk chunks ih =>
    have hcall := parseFrame_isOk_iff handler (w := { w with buf := w.buf ++ chunk }) hw.settled
    rw [feed, Conforms]
    cases hr : parseFrame handler { w with buf := w.buf ++ chunk } with
    | error e =>
      refine iff_of_false (by simp) fun h => ?_
      obtain ⟨w', hw'⟩ := hcall.mpr h.1
      rw [hr] at hw'
      cases hw'
    | ok w₁ =>
      have hw₁ : w₁.context.Reached :=
        parseFrame_reached (w := { w with buf := w.buf ++ chunk }) hw hr
      rw [ok_bind, ih hw₁]
      constructor
      · intro h
        refine ⟨hcall.mp ⟨w₁, hr⟩, fun w' hw' => ?_⟩
        cases hw'
        exact h
      · intro h
        exact h.2 w₁ rfl

/-- The bytes of a peer, however they are cut into chunks, make no assertion fail exactly if
every field is accepted at the time it is read. -/
theorem feed_no_abort_iff (handler : ICallbackHandler) (c : Context) (hc : c.Idle)
    (log : List Callback) (chunks : List Bytes) :
    (∃ w, feed handler ⟨c, [], log⟩ chunks = .ok w) ↔ Conforms handler ⟨c, [], log⟩ chunks :=
  feed_isOk_iff handler chunks hc.reached

/-- A masked text that is cut inside its key: a header, the key when it is there, the payload, and
nothing of the next header. -/
theorem feed_no_abort_text :
    Conforms .retrieveAll ⟨.connected, [], []⟩ [[0x81, 0x81, 1, 2], [3, 4, 0x40]] ∧
    ∃ w, feed .retrieveAll ⟨.connected, [], []⟩ [[0x81, 0x81, 1, 2], [3, 4, 0x40]] = .ok w := by
  have hconforms :
      Conforms .retrieveAll ⟨.connected, [], []⟩ [[0x81, 0x81, 1, 2], [3, 4, 0x40]] := by
    refine ⟨⟨by decide, ?_⟩, fun w' hw' => ?_⟩
    · refine Consumer.forall_steps_of_tick _ rfl ?_ (Consumer.forall_steps_of_wait _ rfl ?_)
      · exact fun _ => ⟨by decide, fun h => absurd h (by decide)⟩
      · exact fun h => absurd h (by decide)
    · obtain rfl := Except.ok.inj hw'
      refine ⟨⟨by decide, ?_⟩, fun _ _ => trivial⟩
      refine Consumer.forall_steps_of_tick _ rfl ?_ (Consumer.forall_steps_of_tick _ rfl ?_
        (Consumer.forall_steps_of_wait _ rfl ?_))
      · exact fun _ => by decide
      · exact fun _ => ⟨by decide, fun _ => by decide⟩
      · exact fun h => absurd h (by decide)
  exact ⟨hconforms,
    (feed_no_abort_iff .retrieveAll .connected Context.connected_idle [] _).mpr hconforms⟩

/-- Six bytes of a masked frame with a reserved opcode kill the process. -/
theorem feed_reserved_opcode_aborts :
    feed .retrieveAll ⟨.connected, [], []⟩ [[0x83, 0x80, 0, 0, 0, 0]] =
      .error (.assertion .getFrameControlMessageType) := by
  rfl

end LibWebsocket.Websocket
