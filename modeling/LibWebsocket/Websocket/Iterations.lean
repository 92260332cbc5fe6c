import LibWebsocket.Websocket.Invariant

/-! How often the loop of `parse_frame` goes round. An iteration that asks for another one has
read a byte or has left a payload step, although some iterations read nothing (empty payloads)
and some go on although bytes are missing (the answers dropped behind a header). -/
namespace LibWebsocket.Websocket
open Lib Rfc6455

/-- The iterations that the loop of `parse_frame` starts when it is given `fuel` of them. -/
def parseFrameIterations (handler : ICallbackHandler) (ty : FrameControlE) : ℕ → Parser → ℕ
  | 0, _ => 0
  | fuel + 1, w =>
    if 0 < w.buf.length then
      match parseFrameStep handler ty w with
      | .ok (true, w) => parseFrameIterations handler ty fuel w + 1
      | _ => 1
    else 0

section Loop
variable {handler : ICallbackHandler} {ty : FrameControlE} {w : Parser}

/-- The size of the machine's configuration counts down at every iteration. -/
theorem parseFrameIterations_le_tickSize (hty : ty ≠ .frameInvalid)
    (hw : AtHead ty w.context w.buf) (fuel : ℕ) :
    parseFrameIterations handler ty fuel w ≤ tickSize w.context w.buf := by
  induction fuel generalizing w with
  | zero => exact Nat.zero_le _
  | succ fuel ih =>
    rw [parseFrameIterations]
    split_ifs with hb
    · have hpos : 1 ≤ tickSize w.context w.buf := by
        unfold tickSize
        omega
      have hstep : Refines ty w (parseFrameStep handler ty w) := parseFrameStep_refines hty hw hb
      rcases hr : parseFrameStep handler ty w with e | ⟨enough, w'⟩
      · exact hpos
      · rw [hr] at hstep
        obtain ⟨-, -, -, hend⟩ := hstep
        cases enough with
        | false => exact hpos
        | true =>
          obtain ⟨hhead, hlt⟩ := hend
          have hrest := ih hhead
          exact Nat.lt_of_le_of_lt hrest hlt
    · exact Nat.zero_le _

theorem deliver_error {c : Context} {p : Bytes} {e : Failure} (h : c.deliver ty p = .error e) :
    ∃ site, e = .assertion site := by
  unfold Context.deliver Context.deliverData Context.deliverControl at h
  dsimp only at h
  split at h <;> split at h
  · cases h
  · split at h <;> cases h
    exact ⟨_, rfl⟩
  · cases h
  · split at h <;> cases h
    exact ⟨_, rfl⟩

theorem tickDeliver_error {c : Context} {b : Bytes} {n : ℕ} {e : Failure}
    (h : tickDeliver ty c b n = .error e) : ∃ site, e = .assertion site := by
  unfold tickDeliver at h
  cases hd : c.deliver ty (b.take n) with
  | error e' =>
    rw [hd] at h
    cases h
    exact deliver_error hd
  | ok r =>
    rw [hd] at h
    cases h

/-- Only assertions make a tick fail. -/
theorem tick_error {c : Context} {b : Bytes} {e : Failure} (h : tick ty c b = .error e) :
    ∃ site, e = .assertion site := by
  unfold tick at h
  split at h
  case h_1 =>
    unfold tickFrameHeader at h
    split_ifs at h
    · exact tickDeliver_error h
    · cases h
      exact ⟨_, rfl⟩
  case h_2 | h_3 =>
    unfold tickPayloadlen at h
    split_ifs at h
  case h_4 =>
    unfold tickMaskingkey at h
    split_ifs at h
    · cases h
      exact ⟨_, rfl⟩
    · cases h
      exact ⟨_, rfl⟩
  all_goals
    unfold tickPayload at h
    split_ifs at h
    · cases h
      exact ⟨_, rfl⟩
    · exact tickDeliver_error h

theorem parseFrame_settled_result (handler : ICallbackHandler) (hw : w.context.Settled) :
    (∃ w', parseFrame handler w = .ok w') ∨
      ∃ site, parseFrame handler w = .error (.assertion site) := by
  rw [parseFrame_eq handler hw]
  split_ifs with hty
  · rcases hr : (machine w.context.header.header.control).run w.context w.buf with e | r
    · obtain ⟨c, b, htick⟩ := Consumer.exists_tick_error _ hr
      obtain ⟨site, rfl⟩ := tick_error htick
      exact .inr ⟨site, rfl⟩
    · exact .inl ⟨_, rfl⟩
  · exact .inr ⟨_, rfl⟩

end Loop

theorem getFrameControlMessageType_ok {h : Header} {ty : FrameControlE × MessageFrameE}
    (hty : getFrameControlMessageType h = .ok ty) : ty.1 = h.control := by
  obtain ⟨o, r3, r2, r1, fin, n, m⟩ := h
  cases o <;> cases fin <;> cases hty <;> rfl

/-- On every context that a connected peer's bytes lead to, and for every buffer, the loop of
`parse_frame` goes round at most twice per readable byte and once more, however many rounds it
is granted, and the call returns or stops at an assertion. -/
theorem parseFrame_iterations_le (handler : ICallbackHandler) (chunks : List Bytes) (w : Parser)
    (hw : feed handler ⟨.connected, [], []⟩ chunks = .ok w) (b : Bytes) :
    (∀ ty, getFrameControlMessageType w.context.header.header = .ok ty → ∀ fuel,
        parseFrameIterations handler ty.1 fuel { w with buf := b } ≤ 2 * b.length + 1) ∧
      ((∃ w', parseFrame handler { w with buf := b } = .ok w') ∨
        ∃ site, parseFrame handler { w with buf := b } = .error (.assertion site)) := by
  have hsettled : w.context.Settled := (feed_reached chunks Context.connected_idle.reached hw).settled
  refine ⟨fun ty hty fuel => ?_, parseFrame_settled_result handler hsettled⟩
  have hcontrol := getFrameControlMessageType_ok hty
  have hhead : AtHead ty.1 w.context b :=
    ⟨hsettled, fun _ _ hne => absurd hcontrol hne⟩
  have hsize : tickSize w.context b ≤ 2 * b.length + 1 := by
    unfold tickSize
    split_ifs <;> omega
  have hle : parseFrameIterations handler ty.1 fuel { w with buf := b } ≤ tickSize w.context b :=
    parseFrameIterations_le_tickSize (hcontrol ▸ Header.control_ne_frameInvalid _) hhead fuel
  exact hle.trans hsize

/-- Two header bytes, of which the first came alone, and a masking key. -/
theorem parseFrame_iterations_le_text :
    (∀ ty, getFrameControlMessageType Context.connected.header.header = .ok ty → ∀ fuel,
        parseFrameIterations .retrieveAll ty.1 fuel
          ⟨.connected, [0x81, 0x80, 1, 2, 3, 4], []⟩ ≤ 13) ∧
      ((∃ w', parseFrame .retrieveAll ⟨.connected, [0x81, 0x80, 1, 2, 3, 4], []⟩ = .ok w') ∨
        ∃ site, parseFrame .retrieveAll ⟨.connected, [0x81, 0x80, 1, 2, 3, 4], []⟩ =
          .error (.assertion site)) :=
  parseFrame_iterations_le .retrieveAll [[0x81]] ⟨.connected, [0x81], []⟩ rfl
    [0x81, 0x80, 1, 2, 3, 4]

end LibWebsocket.Websocket
