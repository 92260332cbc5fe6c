import LibWebsocket.Websocket.Chunk

/-! Which frames a delivered data message is made of. The parser keeps no record of a message
in progress: a continuation frame may start one, and a text or binary frame is only refused
while bytes of another message are there. Streams that keep to the two rules of
`InSequence` are delivered in well-formed groups. -/
namespace LibWebsocket.Websocket
open Lib Rfc6455

/-- After a frame that is final or not, the frames continue its message up to its end. -/
def Continues (fin : Bool) : List WireFrame → Prop
  | [] => fin = true
  | f :: fs => fin = false ∧ (headerOf f).opcode = .segmentMessage ∧ Continues f.fin fs

/-- One frame with FIN, or a frame without it, continuations without it and one with it. The
first frame is of type `t`. -/
def WellFormed (t : MessageE) : List WireFrame → Prop
  | [] => False
  | f :: fs => (t = .textMessage ∨ t = .binaryMessage) ∧ (headerOf f).opcode = t ∧
    Continues f.fin fs

/-- The data frames of the message in progress after a frame. -/
def pendingAfter (pending : List WireFrame) (f : WireFrame) : List WireFrame :=
  if isDataFrame f then if f.fin then [] else pending ++ [f]
  else if (headerOf f).opcode = .closeMessage then [] else pending

/-- A delivered data message: the data frames consumed for it and what the callback is
given. -/
structure Delivery where
  frames : List WireFrame
  body : Bytes
  msgType : MessageE

def Delivery.callback (d : Delivery) : Callback := .onMessageCallback d.body d.msgType

/-- The deliveries among the callbacks of one frame. -/
def delivered (pending : List WireFrame) (f : WireFrame) (o : List Callback) : List Delivery :=
  if isDataFrame f then
    o.filterMap fun
      | .onMessageCallback body t => some ⟨pending ++ [f], body, t⟩
      | _ => none
  else []

/-- The data messages delivered along a run over complete frames. -/
def Context.deliveries (c : Context) (pending : List WireFrame) : List WireFrame → List Delivery
  | [] => []
  | f :: fs =>
    match c.consume .unControlFrame f with
    | .error _ => []
    | .ok (c', o) => delivered pending f o ++ c'.deliveries (pendingAfter pending f) fs

/-- A continuation only comes while a message is in progress, and another text or binary
frame does not come while that message has no bytes yet. -/
def Admissible (pending : List WireFrame) (f : WireFrame) : Prop :=
  ((headerOf f).opcode = .segmentMessage → pending ≠ []) ∧
  ((headerOf f).opcode = .textMessage ∨ (headerOf f).opcode = .binaryMessage →
    pending ≠ [] → ∃ g ∈ pending, g.payload ≠ [])

def InSequence (pending : List WireFrame) : List WireFrame → Prop
  | [] => True
  | f :: fs => Admissible pending f ∧ InSequence (pendingAfter pending f) fs

instance (pending : List WireFrame) (f : WireFrame) : Decidable (Admissible pending f) :=
  inferInstanceAs (Decidable (_ ∧ _))

instance decidableInSequence : ∀ pending fs, Decidable (InSequence pending fs)
  | _, [] => .isTrue trivial
  | pending, f :: fs =>
    have := decidableInSequence (pendingAfter pending f) fs
    inferInstanceAs (Decidable (_ ∧ _))

section
variable {ty : FrameControlE} {c c' : Context} {f : WireFrame} {o : List Callback}
  {pending : List WireFrame}

/-- What a masked frame without a failing assertion can do. -/
theorem consume_ok_cases (hc : c.Boundary) (hinv : c.Inv) (hk : f.key.isSome)
    (h : c.consume ty f = .ok (c', o)) :
    ((headerOf f).opcode.IsData ∧ c.Starts (headerOf f).opcode ∧
      (c', o) = (let m := (c.dataMessage.startData (headerOf f).opcode).absorb f
        if f.fin then ({ c with dataMessage := m.resetMessage },
            [.onMessageCallback m.messageBuffer m.messageType])
          else ({ c with dataMessage := m }, []))) ∨
    ((headerOf f).opcode = .closeMessage ∧ c'.dataMessage = c.dataMessage.resetMessage ∧
      o = [.onClosedCallback f.payload, .forceClose]) ∨
    (((headerOf f).opcode = .pingMessage ∨ (headerOf f).opcode = .pongMessage) ∧
      c'.dataMessage = c.dataMessage ∧ o = [frameCallback f]) := by
  obtain ⟨hs, htype, hbad⟩ := consume_ok h
  rcases htype hk with hop | ⟨hop, hfin⟩
  · rw [consume_data hc hop (frameType_masked_data ty hk hop), if_neg (not_not.mpr hs)] at h
    exact .inl ⟨hop, hs, (Except.ok.inj h).symm⟩
  · have hty := frameType_masked_control ty hk hop
    have hform : f.form ≠ .bits16 := fun h => hbad ⟨hty, (payloadlen_eq_126_iff f).mpr h⟩
    have hfin' : f.fin = true := by
      cases hf : f.fin <;> simp [headerOf, hf, FinE.ofBool] at hfin
      rfl
    rw [consume_control hc hinv.control hop hfin' hty hform, if_neg (not_not.mpr (hs.2.2 hop))] at h
    by_cases hclose : (headerOf f).opcode = .closeMessage
    · rw [if_pos hclose] at h
      cases h
      exact .inr (.inl ⟨hclose, rfl, rfl⟩)
    · rw [if_neg hclose] at h
      cases h
      exact .inr (.inr ⟨hop.resolve_left hclose, rfl, rfl⟩)

/-- The deliveries of a run are its data callbacks. -/
theorem deliveries_callbacks (fs : List WireFrame) (hfs : ∀ f ∈ fs, f.key.isSome)
    (hc : c.Boundary) (hinv : c.Inv) (pending : List WireFrame)
    (h : c.consumeAll .unControlFrame fs = .ok (c', o)) :
    o.filter Callback.isData = (c.deliveries pending fs).map Delivery.callback := by
  induction fs generalizing c o pending with
  | nil =>
    cases h
    rfl
  | cons f fs ih =>
    obtain ⟨c₁, o₁, o₂, h₁, h₂, rfl⟩ := consumeAll_cons_ok.mp h
    have hk := hfs f (by simp)
    have hrest := ih (fun g hg => hfs g (by simp [hg])) (consume_boundary h₁) (hinv.consume h₁)
      (pendingAfter pending f) h₂
    simp only [Context.deliveries, h₁, List.filter_append, List.map_append, hrest]
    congr 1
    obtain ⟨hop, -, hres⟩ | ⟨hop, -, rfl⟩ | ⟨hop, -, rfl⟩ := consume_ok_cases hc hinv hk h₁
    · have hframe : isDataFrame f = true := by simpa [isDataFrame] using hop
      rw [(consume_data_callbacks hc hinv hk hop h₁).1, delivered, if_pos hframe]
      cases hfin : f.fin <;> simp only [hfin, if_true, Bool.false_eq_true, if_false] at hres <;>
        cases hres <;> rfl
    · have hframe : isDataFrame f = false := by simp [isDataFrame, hop, OpcodeE.IsData]
      simp [delivered, hframe, Callback.isData]
    · obtain ⟨hframe, hcallback, -⟩ := pingPong_not_data hop
      simp [delivered, hframe, hcallback]

/-- The frames of a message that is not finished. -/
def Unfinished (t : MessageE) : List WireFrame → Prop
  | [] => False
  | f :: fs => (t = .textMessage ∨ t = .binaryMessage) ∧ (headerOf f).opcode = t ∧
    f.fin = false ∧ ∀ g ∈ fs, (headerOf g).opcode = .segmentMessage ∧ g.fin = false

theorem continues_append {fs : List WireFrame} {g : WireFrame}
    (hfs : ∀ g ∈ fs, (headerOf g).opcode = .segmentMessage ∧ g.fin = false)
    (hg : (headerOf g).opcode = .segmentMessage) (hfin : g.fin = true) :
    Continues false (fs ++ [g]) := by
  induction fs with
  | nil => exact ⟨rfl, hg, hfin⟩
  | cons f fs ih =>
    obtain ⟨hop, hf⟩ := hfs f (by simp)
    exact ⟨rfl, hop, hf ▸ ih fun g hg => hfs g (by simp [hg])⟩

theorem Unfinished.wellFormed {t : MessageE} (hp : Unfinished t pending)
    (hop : (headerOf f).opcode = .segmentMessage) (hfin : f.fin = true) :
    WellFormed t (pending ++ [f]) := by
  match pending, hp with
  | g :: gs, ⟨ht, hg, hgfin, hgs⟩ => exact ⟨ht, hg, hgfin ▸ continues_append hgs hop hfin⟩

theorem Unfinished.append {t : MessageE} (hp : Unfinished t pending)
    (hop : (headerOf f).opcode = .segmentMessage) (hfin : f.fin = false) :
    Unfinished t (pending ++ [f]) := by
  match pending, hp with
  | g :: gs, ⟨ht, hg, hgfin, hgs⟩ =>
    refine ⟨ht, hg, hgfin, fun x hx => ?_⟩
    rcases List.mem_append.mp hx with hx | hx
    · exact hgs x hx
    · cases List.mem_singleton.mp hx
      exact ⟨hop, hfin⟩

/-- The context agrees with the message in progress. -/
structure InProgress (c : Context) (pending : List WireFrame) : Prop where
  bytes : c.dataMessage.messageBuffer = [] ↔ ∀ g ∈ pending, g.payload = []
  unfinished : pending ≠ [] → Unfinished c.dataMessage.messageType pending

/-- The type of the message in progress after a data frame that may come. -/
theorem InProgress.start (hp : InProgress c pending) (hadm : Admissible pending f)
    (hop : (headerOf f).opcode.IsData) (hs : c.Starts (headerOf f).opcode) :
    (pending ≠ [] ∧ (headerOf f).opcode = .segmentMessage ∧
      (c.dataMessage.startData (headerOf f).opcode).messageType = c.dataMessage.messageType) ∨
    (pending = [] ∧ ((headerOf f).opcode = .textMessage ∨ (headerOf f).opcode = .binaryMessage) ∧
      (c.dataMessage.startData (headerOf f).opcode).messageType = (headerOf f).opcode) := by
  rcases hop with hseg | hop
  · exact .inl ⟨hadm.1 hseg, hseg, by simp [Message.startData, hseg]⟩
  · refine .inr ⟨?_, hop, by simp [Message.startData, hop]⟩
    by_contra hne
    obtain ⟨g, hg, hbytes⟩ := hadm.2 hop hne
    exact hbytes (hp.bytes.mp (hs.2.1 hop) g hg)

/-- A data frame ends the message in progress or adds to it. -/
theorem InProgress.data {m : Message} (hp : InProgress c pending) (hadm : Admissible pending f)
    (hop : (headerOf f).opcode.IsData) (hs : c.Starts (headerOf f).opcode)
    (hm : m = (c.dataMessage.startData (headerOf f).opcode).absorb f) :
    (f.fin = true → WellFormed m.messageType (pending ++ [f])) ∧
      (f.fin = false → InProgress { c with dataMessage := m } (pending ++ [f])) := by
  have htype : m.messageType = (c.dataMessage.startData (headerOf f).opcode).messageType := by
    rw [hm, Message.absorb_messageType]
  have hbytes : m.messageBuffer = [] ↔ c.dataMessage.messageBuffer = [] ∧ f.payload = [] := by
    rw [hm, Message.absorb_eq_nil_iff, Message.startData_messageBuffer]
  obtain ⟨hne, hseg, htype'⟩ | ⟨rfl, hfirst, htype'⟩ := hp.start hadm hop hs
  · rw [htype'] at htype
    have hopen := hp.unfinished hne
    refine ⟨fun hfin => htype ▸ hopen.wellFormed hseg hfin, fun hfin => ⟨?_, fun _ => ?_⟩⟩
    · simp only [hbytes, hp.bytes, List.mem_append, List.mem_singleton, or_imp, forall_and,
        forall_eq]
    · exact htype ▸ hopen.append hseg hfin
  · rw [htype'] at htype
    refine ⟨fun hfin => ?_, fun hfin => ⟨?_, fun _ => ?_⟩⟩
    · rw [htype]
      exact ⟨hfirst, rfl, hfin⟩
    · have hempty : c.dataMessage.messageBuffer = [] := hp.bytes.mpr (by simp)
      simp [hbytes, hempty]
    · change Unfinished m.messageType _
      rw [htype]
      exact ⟨hfirst, rfl, hfin, by simp⟩

theorem InProgress.step (hp : InProgress c pending) (hc : c.Boundary) (hinv : c.Inv)
    (hk : f.key.isSome) (hadm : Admissible pending f) (h : c.consume ty f = .ok (c', o)) :
    InProgress c' (pendingAfter pending f) ∧
      ∀ d ∈ delivered pending f o, WellFormed d.msgType d.frames := by
  obtain ⟨hop, hs, hres⟩ | ⟨hop, hdata, rfl⟩ | ⟨hop, hdata, rfl⟩ := consume_ok_cases hc hinv hk h
  · have hframe : isDataFrame f = true := by simpa [isDataFrame] using hop
    obtain ⟨hend, hopen⟩ := hp.data hadm hop hs rfl
    cases hfin : f.fin with
    | true =>
      simp only [hfin, if_true] at hres
      cases hres
      constructor
      · simp only [pendingAfter, hframe, hfin, if_true]
        exact ⟨by simp [Message.resetMessage], by simp⟩
      · simpa [delivered, hframe] using hend hfin
    | false =>
      simp only [hfin, Bool.false_eq_true, if_false] at hres
      cases hres
      refine ⟨?_, by simp [delivered]⟩
      simpa [pendingAfter, hframe, hfin] using hopen hfin
  · have hframe : isDataFrame f = false := by simp [isDataFrame, hop, OpcodeE.IsData]
    refine ⟨⟨?_, ?_⟩, ?_⟩
    · simp [pendingAfter, hframe, hop, hdata, Message.resetMessage]
    · simp [pendingAfter, hframe, hop]
    · simp [delivered, hframe]
  · obtain ⟨hframe, -, -⟩ := pingPong_not_data hop
    have hclose : (headerOf f).opcode ≠ .closeMessage := by
      rcases hop with h | h <;> simp [h]
    have hpending : pendingAfter pending f = pending := by simp [pendingAfter, hframe, hclose]
    rw [hpending]
    exact ⟨⟨hdata ▸ hp.bytes, hdata ▸ hp.unfinished⟩, by simp [delivered, hframe]⟩

theorem deliveries_wellFormed (fs : List WireFrame) (hfs : ∀ f ∈ fs, f.key.isSome)
    (hc : c.Boundary) (hinv : c.Inv) (hp : InProgress c pending) (hseq : InSequence pending fs) :
    ∀ d ∈ c.deliveries pending fs, WellFormed d.msgType d.frames := by
  induction fs generalizing c pending with
  | nil => simp [Context.deliveries]
  | cons f fs ih =>
    obtain ⟨hadm, hrest⟩ := hseq
    rcases hr : c.consume .unControlFrame f with e | ⟨c₁, o₁⟩
    · simp [Context.deliveries, hr]
    · obtain ⟨hp₁, hwf⟩ := hp.step hc hinv (hfs f (by simp)) hadm hr
      have htail := ih (fun g hg => hfs g (by simp [hg])) (consume_boundary hr) (hinv.consume hr)
        hp₁ hrest
      intro d hd
      rw [Context.deliveries, hr] at hd
      rcases List.mem_append.mp hd with hd | hd
      · exact hwf d hd
      · exact htail d hd

end

/-- The beginning of a masked frame, or nothing. -/
def IncompleteFrame (r : Bytes) : Prop :=
  r = [] ∨ ∃ (g : WireFrame) (t : Bytes), g.key.isSome ∧ t ≠ [] ∧ r ++ t = g.wire

theorem run_incompleteFrame {c c' : Context} {r b' : Bytes} {o : List Callback} (hc : c.Boundary)
    (hr : IncompleteFrame r) (h : (machine .unControlFrame).run c r = .ok (c', b', o)) :
    o = [] := by
  obtain rfl | ⟨g, t, hk, hne, he⟩ := hr
  · rw [run_boundary_nil _ hc] at h
    cases h
    rfl
  · exact run_incomplete hc hk he hne h

/-- In any run without a failing assertion over masked frames in sequence, however they are
cut into chunks and wherever the stream ends, the data callbacks are the deliveries, and
each of these is made of one well-formed group of frames and has the type of its first. -/
theorem feed_deliveries (handler : ICallbackHandler) (c : Context) (hc : c.Idle)
    (fs : List WireFrame) (hfs : ∀ f ∈ fs, f.key.isSome) (r : Bytes) (hr : IncompleteFrame r)
    (chunks : List Bytes) (hcut : chunks.flatten = stream fs ++ r) (w : Parser)
    (h : feed handler ⟨c, [], []⟩ chunks = .ok w) (hseq : InSequence [] fs) :
    w.callbacks.filter Callback.isData = (c.deliveries [] fs).map Delivery.callback ∧
      ∀ d ∈ c.deliveries [] fs, WellFormed d.msgType d.frames := by
  have hb := hc.toBoundary
  have hp : InProgress c [] := ⟨by simp [hc.dataBuffer], by simp⟩
  refine ⟨?_, deliveries_wellFormed fs hfs hb hc.toInv hp hseq⟩
  have ha : Aligned (fun _ => True) c ([] ++ chunks.flatten) := by
    refine ⟨hb.settled.1, [], ?_⟩
    obtain rfl | ⟨g, t, hk, -, he⟩ := hr
    · refine ⟨[], fs, awaits_boundary hb trivial, fun f hf => ⟨hfs f hf, trivial⟩, ?_⟩
      simp [hcut]
    · refine ⟨t, fs ++ [g], awaits_boundary hb trivial, fun f hf => ⟨?_, trivial⟩, ?_⟩
      · rcases List.mem_append.mp hf with hf | hf
        · exact hfs f hf
        · cases List.mem_singleton.mp hf
          exact hk
      · simp [hcut, stream_append, stream_cons, he]
  obtain hrun | ⟨herr, -⟩ := feed_cases handler (w := ⟨c, [], []⟩) chunks trivial hb.settled
    (tick_nil hb.settled) ha
  · rw [h, List.nil_append, hcut, run_stream _ hb fs fun f hf => prompt_of_masked (hfs f hf)] at hrun
    rcases hall : c.consumeAll .unControlFrame fs with e | ⟨c₁, o₁⟩
    · rw [hall] at hrun
      cases hrun
    · rcases hrest : (machine .unControlFrame).run c₁ r with e | ⟨c₂, b₂, o₂⟩
      · simp [hall, hrest, Except.bind, Except.map] at hrun
      · have ho₂ := run_incompleteFrame (consumeAll_boundary hb hall) hr hrest
        simp only [hall, hrest, Except.bind, Except.map, Except.ok.injEq] at hrun
        have hw : w.callbacks = o₁ := by
          rw [hrun, ho₂]
          simp [Parser.ofRest, Consumer.Rest.after]
        rw [hw]
        exact deliveries_callbacks fs hfs hb hc.toInv [] hall
  · rw [h] at herr
    cases herr

/-- The text in two fragments around a ping, cut into three chunks. -/
theorem feed_deliveries_interleaved :
    [Callback.onMessageCallback [0x48, 0x69] .textMessage] =
        (Context.connected.deliveries [] interleaved).map Delivery.callback ∧
      ∀ d ∈ Context.connected.deliveries [] interleaved, WellFormed d.msgType d.frames :=
  feed_deliveries .retrieveAll .connected Context.connected_idle interleaved (by decide) []
    (.inl rfl) [(stream interleaved).take 5, (stream interleaved).drop 5] (by decide)
    ⟨_, _, [.onMessageCallback [0x21] .pingMessage, .onMessageCallback [0x48, 0x69] .textMessage]⟩
    rfl (by decide)

/-- A continuation frame with FIN set and nothing before it is delivered as a text. -/
theorem feed_stray_continuation :
    (feed .retrieveAll ⟨.connected, [], []⟩
        [stream [⟨⟨true, 0, some ![1, 2, 3, 4], [0x41]⟩, .bits7, by decide⟩]]).map (·.callbacks) =
      .ok [.onMessageCallback [0x41] .textMessage] := by
  rfl

end LibWebsocket.Websocket
