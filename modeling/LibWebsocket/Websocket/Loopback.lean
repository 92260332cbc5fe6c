import LibWebsocket.Websocket.Encode
import LibWebsocket.Websocket.Stream

/-! The parser on what the packers write. Packed frames are unmasked, and the parser chooses
the handler of an unmasked frame by its length class: below 126 bytes always the control
handler, above it the one of the type computed before the loop, which between two frames is
the data handler. -/
namespace LibWebsocket.Websocket
open Lib Rfc6455

section Route
variable {c : Context} {f : WireFrame} {ty : FrameControlE}

/-- A final frame that reaches the handler of the other kind of frame fails an assertion. -/
theorem consume_misrouted (hfin : f.fin = true)
    (hop : (headerOf f).opcode.IsData ↔ frameType ty f ≠ .unControlFrame)
    (r : Context × List Callback) : c.consume ty f ≠ .ok r := by
  have hfinished : (c.loaded f).header.header.fin = .frameFinished := by
    simp [Context.loaded, Context.inFrame, loadedHeader, headerOf, hfin, FinE.ofBool]
  have hopcode : (c.loaded f).header.header.opcode = (headerOf f).opcode := rfl
  intro h
  unfold Context.consume at h
  split_ifs at h
  unfold Context.deliver at h
  split_ifs at h with hty
  · have hno : ¬ (headerOf f).opcode.IsData := fun hdata => hop.mp hdata hty
    simp [Context.deliverData, hfinished, hopcode, hno] at h
  · rcases hop.mpr hty with hdata | hdata | hdata <;>
      simp [Context.deliverControl, hfinished, hopcode, hdata] at h

end Route

section Unmasked
variable {op : OpcodeE} {fin : FinE} {d : Bytes} {hd : d.length < 2 ^ 63}

theorem packed_eq_wire (hlen : d.length ≤ 65535) : packed op fin d = (frameOf op fin d hd).wire :=
  (packed_eq_wire_iff hd).mpr (.inl hlen)

theorem headerOf_frameOf_opcode : (headerOf (frameOf op fin d hd)).opcode = op :=
  OpcodeE.ofCode_code op

theorem frameOf_form_iff : (frameOf op fin d hd).form = .bits7 ↔ d.length < 126 := by
  change LenForm.shortest d.length = .bits7 ↔ _
  obtain ⟨hn, -, hs⟩ | ⟨hn, -, -, hs⟩ | ⟨hn, -, hs⟩ := packPayloadlen_cases d.length
  · simp [hs, hn]
  · simp [hs, hn]
  · simp only [hs, reduceCtorEq, false_iff]
    omega

theorem frameOf_prompt : Prompt (frameOf op fin d hd) := by
  intro _ hform hnil
  rw [ne_eq, frameOf_form_iff] at hform
  have hlen : d.length = 0 := by
    rw [show d = [] from hnil]
    rfl
  omega

/-- The handler of an unmasked frame depends on its length alone. -/
theorem frameType_frameOf : frameType .unControlFrame (frameOf op fin d hd) =
    if d.length < 126 then .controlFrame else .unControlFrame := by
  have hshort : (headerOf (frameOf op fin d hd)).ShortUnmasked ↔ d.length < 126 := by
    rw [shortUnmasked_iff, frameOf_form_iff]
    exact and_iff_left rfl
  unfold frameType
  rw [if_congr hshort rfl rfl]
  rfl

/-- A packed frame of at least 126 bytes with a data opcode is gathered, and a final one
reported. -/
theorem consume_frameOf_long {c : Context} (hc : c.Boundary) (hop : op.IsData)
    (hs : c.Starts op) (hlen : 126 ≤ d.length) :
    c.consume .unControlFrame (frameOf op fin d hd) =
      let m := (c.dataMessage.startData op).append d
      .ok (if fin = .frameFinished then ({ c with dataMessage := m.resetMessage },
          [.onMessageCallback m.messageBuffer m.messageType])
        else ({ c with dataMessage := m }, [])) := by
  have hty : frameType .unControlFrame (frameOf op fin d hd) = .unControlFrame := by
    rw [frameType_frameOf, if_neg (not_lt.mpr hlen)]
  have hopcode : (headerOf (frameOf op fin d hd)).opcode = op := headerOf_frameOf_opcode
  have hfin : (frameOf op fin d hd).fin = decide (fin = .frameFinished) := rfl
  have habsorb : (c.dataMessage.startData op).absorb (frameOf op fin d hd) =
      (c.dataMessage.startData op).append d := Message.absorb_unmasked rfl
  rw [consume_data hc (by rwa [hopcode]) hty, hopcode, if_neg (not_not.mpr hs), hfin, habsorb]
  simp only [decide_eq_true_eq]

/-- A packed final frame below 126 bytes with a data opcode reaches the control handler. -/
theorem consume_frameOf_short {c : Context} (hop : op.IsData) (hlen : d.length < 126)
    (r : Context × List Callback) :
    c.consume .unControlFrame (frameOf op .frameFinished d hd) ≠ .ok r := by
  refine consume_misrouted rfl ?_ r
  rw [headerOf_frameOf_opcode, frameType_frameOf, if_pos hlen]
  exact iff_of_true hop (by decide)

end Unmasked

section Segments
variable {k : ℕ}

/-- The continuation frames of a message that is cut every `k` bytes. -/
def segments (k : ℕ) (hk : 0 < k) (hk' : k < 2 ^ 63) (d : Bytes) : List WireFrame :=
  if h : d.length ≤ k then [frameOf .segmentMessage .frameFinished d (by omega)]
  else frameOf .segmentMessage .frameContinue (d.take k) (by rw [List.length_take]; omega) ::
    segments k hk hk' (d.drop k)
termination_by d.length
decreasing_by
  rw [List.length_drop]
  omega

/-- The length of the last piece of `n` bytes that are cut every `k` bytes. -/
def lastLength (k n : ℕ) : ℕ := (n - 1) % k + 1

theorem lastLength_of_le {n : ℕ} (hn : 0 < n) (hk : n ≤ k) : lastLength k n = n := by
  rw [lastLength, Nat.mod_eq_of_lt (by omega)]
  omega

theorem lastLength_sub {n : ℕ} (hn : k < n) : lastLength k (n - k) = lastLength k n := by
  rw [lastLength, lastLength, show n - 1 = n - k - 1 + k by omega, Nat.add_mod_right]

variable {hk : 0 < k} {hk' : k < 2 ^ 63}

theorem segments_of_le {d : Bytes} (h : d.length ≤ k) :
    segments k hk hk' d = [frameOf .segmentMessage .frameFinished d (by omega)] := by
  rw [segments, dif_pos h]

theorem segments_of_lt {d : Bytes} (h : k < d.length) :
    segments k hk hk' d =
      frameOf .segmentMessage .frameContinue (d.take k) (by rw [List.length_take]; omega) ::
        segments k hk hk' (d.drop k) := by
  rw [segments, dif_neg (not_le.mpr h)]

theorem segments_prompt (d : Bytes) : ∀ f ∈ segments k hk hk' d, Prompt f := by
  induction hn : d.length using Nat.strong_induction_on generalizing d with
  | _ n ih =>
    intro f hf
    by_cases h : d.length ≤ k
    · rw [segments_of_le h, List.mem_singleton] at hf
      exact hf ▸ frameOf_prompt
    · rw [segments_of_lt (not_le.mp h), List.mem_cons] at hf
      obtain rfl | hf := hf
      · exact frameOf_prompt
      · exact ih _ (by rw [List.length_drop]; omega) _ rfl f hf

/-- The loop writes the continuation frames of what is left. -/
theorem packUnmaskDataFrameChunkLoop_eq (data : Bytes) (hk16 : k ≤ 65535) (fuel n left : ℕ)
    (buf : Bytes) (hleft : (data.drop n).length = left) (hpos : 0 < left) (hfuel : left ≤ fuel) :
    packUnmaskDataFrameChunkLoop data k fuel n left buf =
      .ok (buf ++ stream (segments k hk hk' (data.drop n))) := by
  induction fuel generalizing n left buf with
  | zero => omega
  | succ fuel ih =>
    rw [packUnmaskDataFrameChunkLoop, if_pos hpos]
    by_cases h : left > k
    · have hlen : ((data.drop n).take k).length ≤ 65535 := by
        rw [List.length_take]
        omega
      have hdrop : (data.drop n).drop k = data.drop (n + k) := by rw [List.drop_drop]
      rw [if_pos h, packUnmaskUncontrolFrame_eq _ _ (by decide), ok_bind]
      dsimp only
      rw [ih (n + k) (left - k) _ (by rw [← hdrop, List.length_drop, hleft]) (by omega) (by omega),
        segments_of_lt (d := data.drop n) (by omega), stream_cons, hdrop, packed_eq_wire hlen,
        List.append_assoc]
    · have hlen : (data.drop n).length ≤ 65535 := by omega
      rw [if_neg h, packUnmaskUncontrolFrame_eq _ _ (by decide), ok_bind,
        List.take_of_length_le hleft.le, segments_of_le (by omega), stream_cons, stream_nil,
        List.append_nil, ← packed_eq_wire hlen]
      simp

/-- Continuation frames complete the message in progress exactly if the last is not short. -/
theorem consumeAll_segments_iff {c : Context} (hc : c.Boundary)
    (ht : c.dataMessage.messageType = .textMessage ∨ c.dataMessage.messageType = .binaryMessage)
    (hk126 : 126 ≤ k) {d : Bytes} (hd : 0 < d.length) (r : Context × List Callback) :
    c.consumeAll .unControlFrame (segments k hk hk' d) = .ok r ↔
      126 ≤ lastLength k d.length ∧
        r = ({ c with dataMessage := ⟨c.dataMessage.messageType, [], 0⟩ },
          [.onMessageCallback (c.dataMessage.messageBuffer ++ d) c.dataMessage.messageType]) := by
  have hdata : OpcodeE.segmentMessage.IsData := .inl rfl
  induction hn : d.length using Nat.strong_induction_on generalizing c d with
  | _ n ih =>
    subst hn
    have hs : c.Starts .segmentMessage := ⟨fun _ => ht, by simp, fun h => absurd h (by decide)⟩
    by_cases hle : d.length ≤ k
    · rw [segments_of_le hle, lastLength_of_le hd hle, consumeAll_singleton]
      by_cases hlen : 126 ≤ d.length
      · rw [consume_frameOf_long hc hdata hs hlen, and_iff_right hlen, eq_comm (a := r)]
        simp [Message.startData, Message.append, Message.resetMessage]
      · exact iff_of_false (consume_frameOf_short hdata (not_le.mp hlen) r) fun h => hlen h.1
    · have hlt := not_le.mp hle
      have htake : 126 ≤ (d.take k).length := by
        rw [List.length_take]
        omega
      have hstep : c.consume .unControlFrame (frameOf .segmentMessage .frameContinue (d.take k)
          (by rw [List.length_take]; omega)) =
          .ok ({ c with dataMessage := c.dataMessage.append (d.take k) }, []) := by
        rw [consume_frameOf_long hc hdata hs htake]
        simp [Message.startData]
      have hrest := ih (d.drop k).length (by rw [List.length_drop]; omega)
        (c := { c with dataMessage := c.dataMessage.append (d.take k) }) ⟨hc.step, hc.header⟩ ht
        (by rw [List.length_drop]; omega) rfl
      rw [segments_of_lt hlt, consumeAll_cons_of_silent hstep]
      refine hrest.trans ?_
      rw [List.length_drop, lastLength_sub hlt]
      simp only [Message.append, List.append_assoc, List.take_append_drop]

end Segments

section Data
variable {c : Context}

/-- The length of the last frame that `pack_unmask_data_frame` writes. -/
def lastFrameLength (chunk : Bool) (n : ℕ) : ℕ :=
  if chunk = true ∧ 1024 < n then lastLength 1024 n else n

theorem MessageT.messageType_eq (msgType : MessageT) :
    msgType.messageType = .textMessage ∨ msgType.messageType = .binaryMessage := by
  cases msgType
  · exact .inl rfl
  · exact .inr rfl

theorem packUnmaskDataFrameChunk_eq (buf d : Bytes) {op : OpcodeE}
    (hop : op = .textMessage ∨ op = .binaryMessage) (hlen : 1024 < d.length) :
    packUnmaskDataFrameChunk buf d op 1024 =
      .ok (buf ++ stream (frameOf op .frameContinue (d.take 1024) (by rw [List.length_take]; omega) ::
        segments 1024 (by decide) (by decide) (d.drop 1024))) := by
  have htake : (d.take 1024).length ≤ 65535 := by
    rw [List.length_take]
    omega
  unfold packUnmaskDataFrameChunk
  rw [assert_pos hlen, assert_pos hop, ok_bind, ok_bind, packUnmaskUncontrolFrame_eq _ _ (.inr hop),
    ok_bind]
  dsimp only
  rw [packUnmaskDataFrameChunkLoop_eq d (by decide) _ _ _ _ List.length_drop (by omega) (by omega),
    stream_cons, packed_eq_wire htake, List.append_assoc]

/-- The first frame of a message on an idle context. -/
theorem consume_first (hc : c.Idle) {op : OpcodeE} (hop : op = .textMessage ∨ op = .binaryMessage)
    {fin : FinE} {d : Bytes} (hd : d.length < 2 ^ 63) (hlen : 126 ≤ d.length) :
    c.consume .unControlFrame (frameOf op fin d hd) =
      .ok (if fin = .frameFinished then
          ({ c with dataMessage := ⟨op, [], 0⟩ }, [.onMessageCallback d op])
        else ({ c with dataMessage := ⟨op, d, 0⟩ }, [])) := by
  have hs : c.Starts op := by
    refine ⟨fun h => ?_, fun _ => hc.dataBuffer, fun _ => hc.controlBuffer⟩
    rcases hop with rfl | rfl <;> cases h
  have hoff : c.dataMessage.segmentOffset = 0 := by
    have h := hc.data
    rw [Message.Inv, hc.dataBuffer] at h
    simpa using h
  rw [consume_frameOf_long hc.toBoundary (.inr hop) hs hlen]
  simp [Message.startData, hop, Message.append, Message.resetMessage, hc.dataBuffer, hoff]

/-- What `pack_unmask_data_frame` writes, where no frame needs a 64-bit length, and what it
does to an idle context. -/
theorem packUnmaskDataFrame_spec (hc : c.Idle) (d : Bytes) (msgType : MessageT) (chunk : Bool)
    (h64 : (chunk = true ∧ 1024 < d.length) ∨ d.length ≤ 65535) :
    ∃ fs, packUnmaskDataFrame [] d msgType chunk = .ok (stream fs) ∧ (∀ f ∈ fs, Prompt f) ∧
      ∀ r, c.consumeAll .unControlFrame fs = .ok r ↔
        126 ≤ lastFrameLength chunk d.length ∧
          r = ({ c with dataMessage := ⟨msgType.messageType, [], 0⟩ },
            [.onMessageCallback d msgType.messageType]) := by
  have hop := msgType.messageType_eq
  unfold packUnmaskDataFrame lastFrameLength
  by_cases hchunk : chunk = true ∧ 1024 < d.length
  · rw [if_pos hchunk, if_pos hchunk]
    refine ⟨_, packUnmaskDataFrameChunk_eq [] d hop hchunk.2, ?_, fun r => ?_⟩
    · rw [List.forall_mem_cons]
      exact ⟨frameOf_prompt, segments_prompt _⟩
    · have htake : 126 ≤ (d.take 1024).length := by
        rw [List.length_take]
        omega
      have hdrop : 0 < (d.drop 1024).length := by
        rw [List.length_drop]
        omega
      rw [consumeAll_cons_of_silent (consume_first hc hop _ htake)]
      refine (consumeAll_segments_iff (k := 1024)
        (c := { c with dataMessage := ⟨msgType.messageType, d.take 1024, 0⟩ })
        ⟨hc.step, hc.header⟩ hop (by decide) hdrop r).trans ?_
      rw [List.length_drop, lastLength_sub hchunk.2]
      simp only [List.take_append_drop]
  · have hlen : d.length ≤ 65535 := h64.resolve_left hchunk
    rw [if_neg hchunk, if_neg hchunk, packUnmaskUncontrolFrame_eq _ _ (.inr hop), ok_bind]
    refine ⟨[frameOf msgType.messageType .frameFinished d (by omega)], ?_, ?_, fun r => ?_⟩
    · rw [stream_cons, stream_nil, List.append_nil, ← packed_eq_wire hlen]
      rfl
    · simp [frameOf_prompt]
    · rw [consumeAll_singleton]
      by_cases h126 : 126 ≤ d.length
      · rw [consume_first hc hop _ h126, and_iff_right h126, eq_comm (a := r)]
        simp
      · exact iff_of_false (consume_frameOf_short (.inr hop) (not_le.mp h126) r) fun h => h126 h.1

end Data

/-- An idle parser reads a packed data message back exactly if the last frame written has at
least 126 bytes. -/
theorem parseFrame_packUnmaskDataFrame_iff (handler : ICallbackHandler) (c : Context) (hc : c.Idle)
    (log : List Callback) (d : Bytes) (msgType : MessageT) (chunk : Bool)
    (h64 : (chunk = true ∧ 1024 < d.length) ∨ d.length ≤ 65535) :
    (∃ bytes w, packUnmaskDataFrame [] d msgType chunk = .ok bytes ∧
        parseFrame handler ⟨c, bytes, log⟩ = .ok w ∧
        w.callbacks = log ++ [.onMessageCallback d msgType.messageType] ∧
        w.context.Idle ∧ w.buf = []) ↔
      126 ≤ lastFrameLength chunk d.length := by
  obtain ⟨fs, hpack, hprompt, hconsume⟩ := packUnmaskDataFrame_spec hc d msgType chunk h64
  have hparse := parseFrame_stream handler hc.toBoundary fs hprompt log
  constructor
  · rintro ⟨bytes, w, hb, hw, -⟩
    rw [hpack] at hb
    cases hb
    rw [hparse] at hw
    rcases hr : c.consumeAll .unControlFrame fs with e | r
    · rw [hr] at hw
      cases hw
    · exact ((hconsume r).mp hr).1
  · intro hlast
    rw [(hconsume _).mpr ⟨hlast, rfl⟩] at hparse
    refine ⟨_, _, hpack, hparse, rfl, ?_, rfl⟩
    exact ⟨⟨hc.step, hc.header⟩, ⟨msgType.messageType_eq, Nat.le_refl 0, hc.control⟩, hc.state, rfl,
      hc.controlBuffer⟩

/-- A binary message of 1200 bytes in two chunks. -/
theorem parseFrame_packUnmaskDataFrame_chunks :
    ∃ bytes w, packUnmaskDataFrame [] (List.replicate 1200 0x41) .tyBinaryMessage true =
        .ok bytes ∧
      parseFrame .retrieveAll ⟨.connected, bytes, []⟩ = .ok w ∧
      w.callbacks = [] ++ [.onMessageCallback (List.replicate 1200 0x41) .binaryMessage] ∧
      w.context.Idle ∧ w.buf = [] :=
  (parseFrame_packUnmaskDataFrame_iff .retrieveAll .connected Context.connected_idle []
    (List.replicate 1200 0x41) .tyBinaryMessage true
    (.inr (by rw [List.length_replicate]; decide))).mpr (by rw [List.length_replicate]; decide)

/-- The parser fails an assertion on the packed text message "I". -/
theorem parseFrame_packed_text_aborts :
    packUnmaskDataFrame [] [0x49] .tyTextMessage false = .ok [0x81, 0x01, 0x49] ∧
      parseFrame .retrieveAll ⟨.connected, [0x81, 0x01, 0x49], []⟩ =
        .error (.assertion .parseControlFrameReadPayloadData) := by
  decide

section Control
variable {c : Context} {op : OpcodeE}

/-- The callbacks that a control message announces. -/
def controlCallbacks (op : OpcodeE) (d : Bytes) : List Callback :=
  if op = .closeMessage then [.onClosedCallback d, .forceClose] else [.onMessageCallback d op]

theorem consume_control_frameOf (hc : c.Idle) (hop : op.IsControl) {d : Bytes}
    (hd : d.length < 2 ^ 63) (hlen : d.length < 126) :
    ∃ c', c.consume .unControlFrame (frameOf op .frameFinished d hd) =
        .ok (c', controlCallbacks op d) ∧
      (op ≠ .closeMessage → c'.dataMessage = c.dataMessage) := by
  have hopcode : (headerOf (frameOf op .frameFinished d hd)).opcode = op := headerOf_frameOf_opcode
  have hty : frameType .unControlFrame (frameOf op .frameFinished d hd) ≠ .unControlFrame := by
    rw [frameType_frameOf, if_pos hlen]
    decide
  have hform : (frameOf op .frameFinished d hd).form ≠ .bits16 := by
    rw [frameOf_form_iff.mpr hlen]
    decide
  rw [consume_control hc.toBoundary hc.control (by rwa [hopcode]) rfl hty hform, hopcode,
    if_neg (not_not.mpr hc.controlBuffer)]
  unfold controlCallbacks
  split_ifs with hclose
  · exact ⟨_, rfl, fun h => absurd hclose h⟩
  · exact ⟨_, rfl, fun _ => rfl⟩

/-- An idle parser reads a packed control message back exactly if it has less than 126 bytes. -/
theorem parseFrame_packUnmaskControl_iff (handler : ICallbackHandler) (hc : c.Idle)
    (hop : op.IsControl) (log : List Callback) {d bytes : Bytes}
    (hpack : packUnmaskControl op [] d = .ok bytes) :
    (∃ w, parseFrame handler ⟨c, bytes, log⟩ = .ok w ∧
        w.callbacks = log ++ controlCallbacks op d ∧
        (op ≠ .closeMessage → w.context.dataMessage = c.dataMessage)) ↔ d.length < 126 := by
  rw [packUnmaskControl_eq [] d hop] at hpack
  split_ifs at hpack with hlen
  have hd : d.length < 2 ^ 63 := by omega
  have hwire : bytes = stream [frameOf op .frameFinished d hd] := by
    cases hpack
    rw [stream_cons, stream_nil, List.append_nil, ← packed_eq_wire hlen]
    rfl
  have hparse := parseFrame_stream handler hc.toBoundary [frameOf op .frameFinished d hd]
    (by simp [frameOf_prompt]) log
  rw [consumeAll_singleton] at hparse
  rw [hwire, hparse]
  constructor
  · rintro ⟨w, hw, -⟩
    by_contra hlong
    rcases hr : c.consume .unControlFrame (frameOf op .frameFinished d hd) with e | r
    · rw [hr] at hw
      cases hw
    · refine consume_misrouted rfl ?_ r hr
      rw [headerOf_frameOf_opcode, frameType_frameOf, if_neg hlong]
      exact iff_of_false (fun h => h.not_isControl hop) (by decide)
  · intro hshort
    obtain ⟨c', hr, hdata⟩ := consume_control_frameOf hc hop hd hshort
    rw [hr]
    exact ⟨_, rfl, rfl, hdata⟩

end Control

/-- What the packers of the three control messages accept and write is read back exactly if
the message has less than 126 bytes. -/
theorem parseFrame_packed_control_iff (handler : ICallbackHandler) (c : Context) (hc : c.Idle)
    (log : List Callback) (d : Bytes) :
    (∀ bytes, packUnmaskPingFrame [] d = .ok bytes →
      ((∃ w, parseFrame handler ⟨c, bytes, log⟩ = .ok w ∧
          w.callbacks = log ++ [.onMessageCallback d .pingMessage] ∧
          w.context.dataMessage = c.dataMessage) ↔ d.length < 126)) ∧
    (∀ bytes, packUnmaskPongFrame [] d = .ok bytes →
      ((∃ w, parseFrame handler ⟨c, bytes, log⟩ = .ok w ∧
          w.callbacks = log ++ [.onMessageCallback d .pongMessage] ∧
          w.context.dataMessage = c.dataMessage) ↔ d.length < 126)) ∧
    (∀ bytes, packUnmaskCloseFrame [] d = .ok bytes →
      ((∃ w, parseFrame handler ⟨c, bytes, log⟩ = .ok w ∧
          w.callbacks = log ++ [.onClosedCallback d, .forceClose]) ↔ d.length < 126)) := by
  refine ⟨fun bytes hpack => ?_, fun bytes hpack => ?_, fun bytes hpack => ?_⟩
  · simpa [controlCallbacks] using
      parseFrame_packUnmaskControl_iff handler hc (.inr (.inl rfl)) log hpack
  · simpa [controlCallbacks] using
      parseFrame_packUnmaskControl_iff handler hc (.inr (.inr rfl)) log hpack
  · simpa [controlCallbacks] using
      parseFrame_packUnmaskControl_iff handler hc (.inl rfl) log hpack

theorem parseFrame_packed_control_ping :
    ∃ w, parseFrame .retrieveAll ⟨.connected, [0x89, 0x01, 0x21], []⟩ = .ok w ∧
      w.callbacks = [] ++ [.onMessageCallback [0x21] .pingMessage] ∧
      w.context.dataMessage = Context.connected.dataMessage :=
  ((parseFrame_packed_control_iff .retrieveAll .connected Context.connected_idle [] [0x21]).1
    _ rfl).mpr (by decide)

/-- A ping of 126 bytes passes the packer and reaches the data handler. -/
theorem parseFrame_packed_ping_aborts :
    packUnmaskPingFrame [] (List.replicate 126 0) =
        .ok ([0x89, 0x7e, 0x00, 0x7e] ++ List.replicate 126 0) ∧
      parseFrame .retrieveAll ⟨.connected, [0x89, 0x7e, 0x00, 0x7e] ++ List.replicate 126 0, []⟩ =
        .error (.assertion .parseUncontrolFrameReadExtendedPayloadDataU16) := by
  decide +kernel

end LibWebsocket.Websocket
