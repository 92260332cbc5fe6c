import LibWebsocket.Websocket.Stream

/-! Pings and pongs between the frames of a message. Data frames read and write the data
message only, pings and pongs the control message only, so that each kind is delivered as
if the other were not there. -/
namespace LibWebsocket.Websocket
open Lib Rfc6455

/-- A masked data frame, or a masked ping or pong as the protocol allows it. -/
def DataOrPing (f : WireFrame) : Prop :=
  f.key.isSome ∧ ((headerOf f).opcode.IsData ∨
    ((headerOf f).opcode = .pingMessage ∨ (headerOf f).opcode = .pongMessage) ∧
      f.fin = true ∧ f.form = .bits7)

instance (f : WireFrame) : Decidable (DataOrPing f) := inferInstanceAs (Decidable (_ ∧ _))

theorem DataOrPing.typeOk {f : WireFrame} (hf : DataOrPing f) : (headerOf f).TypeOk := by
  obtain ⟨-, hop | ⟨hop, hfin, -⟩⟩ := hf
  · exact .inl hop
  · exact .inr ⟨.inr hop, by simp [headerOf, hfin, FinE.ofBool]⟩

/-- The frames that carry message data. -/
def isDataFrame (f : WireFrame) : Bool := (headerOf f).opcode.IsData

/-- A text or binary message was delivered. -/
def Callback.isData : Callback → Bool
  | .onMessageCallback _ t => t = .textMessage ∨ t = .binaryMessage
  | _ => false

/-- A ping or a pong was delivered. -/
def Callback.isPingPong : Callback → Bool
  | .onMessageCallback _ t => t = .pingMessage ∨ t = .pongMessage
  | _ => false

theorem pingPong_not_data {f : WireFrame}
    (hop : (headerOf f).opcode = .pingMessage ∨ (headerOf f).opcode = .pongMessage) :
    isDataFrame f = false ∧ (frameCallback f).isData = false ∧
      (frameCallback f).isPingPong = true := by
  rcases hop with h | h <;>
    simp [isDataFrame, frameCallback, Callback.isData, Callback.isPingPong, h, OpcodeE.IsData]

section
variable {ty : FrameControlE} {c c' d : Context} {f : WireFrame} {o : List Callback}

/-- A data frame does the same to every context with the same data message. -/
theorem consume_data_congr (hc : c.Boundary) (hd : d.Boundary) (hk : f.key.isSome)
    (hop : (headerOf f).opcode.IsData) (hdata : d.dataMessage = c.dataMessage)
    (h : c.consume ty f = .ok (c', o)) :
    c' = { c with dataMessage := c'.dataMessage } ∧
      d.consume ty f = .ok ({ d with dataMessage := c'.dataMessage }, o) := by
  have hty := frameType_masked_data ty hk hop
  have hstarts : d.Starts (headerOf f).opcode ↔ c.Starts (headerOf f).opcode := by
    simp [Context.Starts, hdata, hop.not_isControl]
  rw [consume_data hc hop hty] at h
  rw [consume_data hd hop hty]
  split_ifs at h with hs hfin
  all_goals
    rw [if_neg (not_not.mpr (hstarts.mpr hs)), hdata]
    cases h
    simp [hfin]

theorem consume_data_callbacks (hc : c.Boundary) (hinv : c.Inv) (hk : f.key.isSome)
    (hop : (headerOf f).opcode.IsData) (h : c.consume ty f = .ok (c', o)) :
    o.filter Callback.isData = o ∧ o.filter Callback.isPingPong = [] := by
  have htype := Message.startData_messageType (headerOf f).opcode hinv.dataType
  rw [consume_data hc hop (frameType_masked_data ty hk hop)] at h
  split_ifs at h with hs hfin
  · cases h
    rcases htype with ht | ht <;> simp [Callback.isData, Callback.isPingPong, ht]
  · cases h
    simp

/-- Between two frames, with no control message begun. -/
structure Context.Between (c : Context) : Prop extends c.Boundary, c.Inv where
  controlBuffer : c.controlMessage.messageBuffer = []

theorem Context.Idle.between (hc : c.Idle) : c.Between :=
  ⟨hc.toBoundary, hc.toInv, hc.controlBuffer⟩

theorem Context.Between.dataFrame (hc : c.Between) (hk : f.key.isSome)
    (hop : (headerOf f).opcode.IsData) (h : c.consume ty f = .ok (c', o)) : c'.Between where
  toBoundary := consume_boundary h
  toInv := hc.toInv.consume h
  controlBuffer := by
    obtain ⟨hc', -⟩ := consume_data_congr hc.toBoundary hc.toBoundary hk hop rfl h
    rw [hc']
    exact hc.controlBuffer

theorem Context.Between.pingPong (ty : FrameControlE) (hc : c.Between) (hk : f.key.isSome)
    (hop : (headerOf f).opcode = .pingMessage ∨ (headerOf f).opcode = .pongMessage)
    (hfin : f.fin = true) (hform : f.form = .bits7) :
    ∃ c', c.consume ty f = .ok (c', [frameCallback f]) ∧ c'.Between ∧
      c'.dataMessage = c.dataMessage := by
  have h := consume_pingPong ty hc.toBoundary hc.control hc.controlBuffer hk hfin hop
    (by simp [hform])
  exact ⟨_, h, ⟨consume_boundary h, hc.toInv.consume h, rfl⟩, rfl⟩

/-- What the data frames of a stream do does not depend on the other frames. -/
theorem consumeAll_filter_data (fs : List WireFrame) (hfs : ∀ f ∈ fs, DataOrPing f)
    (hc : c.Between) (hd : d.Boundary) (hdata : d.dataMessage = c.dataMessage)
    (h : c.consumeAll ty fs = .ok (c', o)) :
    ∃ d', d.consumeAll ty (fs.filter isDataFrame) = .ok (d', o.filter Callback.isData) := by
  induction fs generalizing c d o with
  | nil =>
    cases h
    exact ⟨d, rfl⟩
  | cons f fs ih =>
    obtain ⟨c₁, o₁, o₂, h₁, h₂, rfl⟩ := consumeAll_cons_ok.mp h
    obtain ⟨⟨hk, hop | ⟨hop, hfin, hform⟩⟩, hfs⟩ := List.forall_mem_cons.mp hfs
    · obtain ⟨-, hd'⟩ := consume_data_congr hc.toBoundary hd hk hop hdata h₁
      obtain ⟨d', h'⟩ := ih hfs (hc.dataFrame hk hop h₁) (consume_boundary hd') rfl h₂
      refine ⟨d', ?_⟩
      rw [List.filter_cons_of_pos (by simpa [isDataFrame] using hop), List.filter_append,
        (consume_data_callbacks hc.toBoundary hc.toInv hk hop h₁).1]
      exact consumeAll_cons_ok.mpr ⟨_, _, _, hd', h', rfl⟩
    · obtain ⟨c₂, hping, hc₂, hsame⟩ := hc.pingPong ty hk hop hfin hform
      rw [hping] at h₁
      cases h₁
      obtain ⟨d', h'⟩ := ih hfs hc₂ hd (hdata.trans hsame.symm) h₂
      obtain ⟨hframe, hcallback, -⟩ := pingPong_not_data hop
      refine ⟨d', ?_⟩
      simp [hframe, hcallback, h']

/-- Pings and pongs are delivered as they are. -/
theorem consumeAll_pingPong (fs : List WireFrame) (hfs : ∀ f ∈ fs, DataOrPing f)
    (hc : c.Between) (h : c.consumeAll ty fs = .ok (c', o)) :
    o.filter Callback.isPingPong = (fs.filter (!isDataFrame ·)).map frameCallback := by
  induction fs generalizing c o with
  | nil =>
    cases h
    rfl
  | cons f fs ih =>
    obtain ⟨c₁, o₁, o₂, h₁, h₂, rfl⟩ := consumeAll_cons_ok.mp h
    obtain ⟨⟨hk, hop | ⟨hop, hfin, hform⟩⟩, hfs⟩ := List.forall_mem_cons.mp hfs
    · have hframe : isDataFrame f = true := by simpa [isDataFrame] using hop
      rw [List.filter_append, (consume_data_callbacks hc.toBoundary hc.toInv hk hop h₁).2,
        ih hfs (hc.dataFrame hk hop h₁) h₂]
      simp [hframe]
    · obtain ⟨c₂, hping, hc₂, -⟩ := hc.pingPong ty hk hop hfin hform
      rw [hping] at h₁
      cases h₁
      obtain ⟨hframe, -, hcallback⟩ := pingPong_not_data hop
      rw [List.filter_append, ih hfs hc₂ h₂]
      simp [hframe, hcallback]

/-- A stream of pings and pongs only never fails. -/
theorem consumeAll_only_pingPong (ty : FrameControlE) (fs : List WireFrame)
    (hfs : ∀ f ∈ fs, DataOrPing f) (honly : ∀ f ∈ fs, isDataFrame f = false) (hc : c.Between) :
    ∃ c', c.consumeAll ty fs = .ok (c', fs.map frameCallback) := by
  induction fs generalizing c with
  | nil => exact ⟨c, rfl⟩
  | cons f fs ih =>
    obtain ⟨hf, honly⟩ := List.forall_mem_cons.mp honly
    obtain ⟨⟨hk, hop | ⟨hop, hfin, hform⟩⟩, hfs⟩ := List.forall_mem_cons.mp hfs
    · exact absurd hop (by simpa [isDataFrame] using hf)
    · obtain ⟨c₂, hping, hc₂, -⟩ := hc.pingPong ty hk hop hfin hform
      obtain ⟨c', h'⟩ := ih hfs honly hc₂
      exact ⟨c', consumeAll_cons_ok.mpr ⟨_, _, _, hping, h', rfl⟩⟩

end

/-- A text in two fragments with a ping between them. -/
def interleaved : List WireFrame :=
  [⟨⟨false, 1, some ![7, 7, 7, 7], [0x48]⟩, .bits7, LenForm.fits_one .bits7⟩,
    ⟨⟨true, 9, some ![1, 2, 3, 4], [0x21]⟩, .bits7, LenForm.fits_one .bits7⟩,
    ⟨⟨true, 0, some ![7, 7, 7, 7], [0x69]⟩, .bits16, LenForm.fits_one .bits16⟩]

/-- On a stream that one call parses, the data messages are those of the stream without its
pings and pongs, and the pings and pongs are those of the stream without its data. -/
theorem parseFrame_interleave (handler : ICallbackHandler) (c : Context) (hc : c.Idle)
    (fs : List WireFrame) (hfs : ∀ f ∈ fs, DataOrPing f) (w : Parser)
    (h : parseFrame handler ⟨c, stream fs, []⟩ = .ok w) :
    (∃ wd, parseFrame handler ⟨c, stream (fs.filter isDataFrame), []⟩ = .ok wd ∧
      w.callbacks.filter Callback.isData = wd.callbacks.filter Callback.isData) ∧
    (∃ wp, parseFrame handler ⟨c, stream (fs.filter (!isDataFrame ·)), []⟩ = .ok wp ∧
      w.callbacks.filter Callback.isPingPong = wp.callbacks.filter Callback.isPingPong) := by
  have hprompt : ∀ f ∈ fs, Prompt f := fun f hf => prompt_of_masked (hfs f hf).1
  rw [parseFrame_stream handler hc.toBoundary fs hprompt] at h
  rcases hall : c.consumeAll .unControlFrame fs with e | ⟨c', o⟩
  · rw [hall] at h
    cases h
  rw [hall] at h
  cases h
  constructor
  · obtain ⟨d, hd⟩ := consumeAll_filter_data fs hfs hc.between hc.toBoundary rfl hall
    refine ⟨⟨d, [], o.filter Callback.isData⟩, ?_, by simp⟩
    rw [parseFrame_stream handler hc.toBoundary _ fun f hf => hprompt f (List.mem_of_mem_filter hf),
      hd]
    rfl
  · have hpings : ∀ f ∈ fs.filter (!isDataFrame ·), DataOrPing f :=
      fun f hf => hfs f (List.mem_of_mem_filter hf)
    obtain ⟨d, hd⟩ := consumeAll_only_pingPong .unControlFrame _ hpings
      (fun f hf => by simpa using (List.mem_filter.mp hf).2) hc.between
    refine ⟨⟨d, [], (fs.filter (!isDataFrame ·)).map frameCallback⟩, ?_, ?_⟩
    · rw [parseFrame_stream handler hc.toBoundary _ fun f hf => prompt_of_masked (hpings f hf).1,
        hd]
      rfl
    · have hall' := consumeAll_pingPong fs hfs hc.between hall
      have hd' := consumeAll_pingPong _ hpings hc.between hd
      simp only [List.filter_filter, Bool.and_self] at hd'
      simp only [List.nil_append]
      rw [hall', hd']

/-- A ping between the two fragments of a text. -/
theorem parseFrame_interleave_ping :
    (∃ wd, parseFrame .retrieveAll ⟨.connected, stream (interleaved.filter isDataFrame), []⟩ =
        .ok wd ∧
      [Callback.onMessageCallback [0x48, 0x69] .textMessage] =
        wd.callbacks.filter Callback.isData) ∧
    (∃ wp, parseFrame .retrieveAll ⟨.connected, stream (interleaved.filter (!isDataFrame ·)), []⟩ =
        .ok wp ∧
      [Callback.onMessageCallback [0x21] .pingMessage] =
        wp.callbacks.filter Callback.isPingPong) :=
  parseFrame_interleave .retrieveAll .connected Context.connected_idle interleaved (by decide)
    ⟨_, _, [.onMessageCallback [0x21] .pingMessage, .onMessageCallback [0x48, 0x69] .textMessage]⟩
    rfl

end LibWebsocket.Websocket
