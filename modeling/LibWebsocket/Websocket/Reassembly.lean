import LibWebsocket.Websocket.Stream

/-! Fragmented messages. A fragment is unmasked with its key read from the position in the
whole message, but was masked with the key read from the position in the fragment. The two
agree for the first fragment, and for a later one exactly if its key does not tell the two
positions apart. -/
namespace LibWebsocket.Websocket
open Lib Rfc6455

/-- A masked fragment: its key, its payload and the form of its length. -/
structure Fragment where
  key : Key
  payload : Bytes
  form : LenForm
  fits : form.Fits payload.length

namespace Fragment

def frame (p : Fragment) (op : OpcodeE) (fin : Bool) : WireFrame where
  fin := fin
  opcode := op.code
  key := some p.key
  payload := p.payload
  form := p.form
  fits := p.fits

@[simp] theorem headerOf_frame_opcode (p : Fragment) (op : OpcodeE) (fin : Bool) :
    (headerOf (p.frame op fin)).opcode = op := OpcodeE.ofCode_code op

/-- The frames of a message: the first has the opcode `op`, the others continue it, and only
the last has FIN set. -/
def frames (op : OpcodeE) : List Fragment → List WireFrame
  | [] => []
  | [p] => [p.frame op true]
  | p :: ps => p.frame op false :: frames .segmentMessage ps

theorem frames_prompt (op : OpcodeE) (ps : List Fragment) : ∀ f ∈ frames op ps, Prompt f := by
  induction ps generalizing op with
  | nil => simp [frames]
  | cons p ps ih =>
    have hp : ∀ fin, Prompt (p.frame op fin) := fun fin => prompt_of_masked rfl
    cases ps with
    | nil => simpa [frames] using hp true
    | cons q ps =>
      intro f hf
      rcases List.mem_cons.mp hf with rfl | hf
      · exact hp false
      · exact ih .segmentMessage f hf

/-- What the parser makes of the fragments behind `o` bytes of the message. -/
def gathered (o : ℕ) : List Fragment → Bytes
  | [] => []
  | p :: ps => maskFrom p.key o (maskFrom p.key 0 p.payload) ++ gathered (o + p.payload.length) ps

/-- The key of each fragment reads the same from the fragment's place in the message, which
has `o` bytes before it, as from the start. -/
def KeysAlign (o : ℕ) : List Fragment → Prop
  | [] => True
  | p :: ps => (∀ i < p.payload.length, p.key (Fin.ofNat 4 (o + i)) = p.key (Fin.ofNat 4 i)) ∧
    KeysAlign (o + p.payload.length) ps

instance decidableKeysAlign : ∀ (o : ℕ) (ps : List Fragment), Decidable (KeysAlign o ps)
  | _, [] => .isTrue trivial
  | o, p :: ps =>
    have := decidableKeysAlign (o + p.payload.length) ps
    inferInstanceAs (Decidable (_ ∧ _))

theorem gathered_eq_iff (o : ℕ) (ps : List Fragment) :
    gathered o ps = ps.flatMap (·.payload) ↔ KeysAlign o ps := by
  induction ps generalizing o with
  | nil => simp [gathered, KeysAlign]
  | cons p ps ih =>
    have hmask := maskFrom_maskFrom_iff p.key o 0 p.payload
    simp only [Nat.zero_add] at hmask
    rw [gathered, KeysAlign, List.flatMap_cons, ← ih, ← hmask]
    constructor
    · intro h
      exact List.append_inj h (by simp)
    · rintro ⟨h₁, h₂⟩
      rw [h₁, h₂]

end Fragment

/-- The message once the payload of a masked frame is added to fully unmasked bytes. -/
theorem consume_fragment (ty : FrameControlE) {c : Context} (hc : c.Boundary) (p : Fragment)
    {op : OpcodeE} (fin : Bool) (hop : op.IsData) (hs : c.Starts op)
    (hm : c.dataMessage.segmentOffset = c.dataMessage.messageBuffer.length) :
    c.consume ty (p.frame op fin) =
      let t := (c.dataMessage.startData op).messageType
      let body := c.dataMessage.messageBuffer ++
        maskFrom p.key c.dataMessage.messageBuffer.length (maskFrom p.key 0 p.payload)
      .ok (if fin then ({ c with dataMessage := ⟨t, [], 0⟩ }, [.onMessageCallback body t])
        else ({ c with dataMessage := ⟨t, body, body.length⟩ }, [])) := by
  have hdata : (headerOf (p.frame op fin)).opcode.IsData := by simpa using hop
  have habsorb := Message.absorb_masked (m := c.dataMessage.startData op)
    (f := p.frame op fin) rfl (by simpa using hm)
  rw [Message.startData_messageBuffer] at habsorb
  rw [consume_data hc hdata (frameType_masked_data ty rfl hdata),
    Fragment.headerOf_frame_opcode, if_neg (not_not.mpr hs), habsorb]
  cases fin <;> simp [Fragment.frame, Message.resetMessage]

theorem consumeAll_fragments (ty : FrameControlE) {c : Context} (hc : c.Boundary)
    {op : OpcodeE} (hop : op.IsData) (hs : c.Starts op)
    (ht : (c.dataMessage.startData op).messageType = .textMessage ∨
      (c.dataMessage.startData op).messageType = .binaryMessage)
    (hm : c.dataMessage.segmentOffset = c.dataMessage.messageBuffer.length)
    (ps : List Fragment) (hps : ps ≠ []) :
    c.consumeAll ty (Fragment.frames op ps) =
      .ok ({ c with dataMessage := ⟨(c.dataMessage.startData op).messageType, [], 0⟩ },
        [.onMessageCallback (c.dataMessage.messageBuffer ++
            Fragment.gathered c.dataMessage.messageBuffer.length ps)
          (c.dataMessage.startData op).messageType]) := by
  induction ps generalizing c op with
  | nil => exact absurd rfl hps
  | cons p ps ih =>
    cases ps with
    | nil =>
      refine consumeAll_cons_ok.mpr ⟨_, _, [], consume_fragment ty hc p true hop hs hm, rfl, ?_⟩
      simp [Fragment.gathered]
    | cons q ps =>
      have hstep := consume_fragment ty hc p false hop hs hm
      have hseg : OpcodeE.IsData .segmentMessage := .inl rfl
      -- the rest of the message continues from the bytes gathered so far
      set t := (c.dataMessage.startData op).messageType
      set body := c.dataMessage.messageBuffer ++
        maskFrom p.key c.dataMessage.messageBuffer.length (maskFrom p.key 0 p.payload) with hbody
      have hrest := ih (c := { c with dataMessage := ⟨t, body, body.length⟩ })
        ⟨hc.step, hc.header⟩ hseg ⟨fun _ => ht, by simp, by simp [OpcodeE.IsControl]⟩ ht rfl
        (by simp)
      refine consumeAll_cons_ok.mpr ⟨_, _, _, hstep, hrest, ?_⟩
      simp [Fragment.gathered, Message.startData, hbody, t]

/-- One call on a fragmented message delivers its payload exactly if the keys align. -/
theorem parseFrame_fragments_iff (handler : ICallbackHandler) (c : Context) (hc : c.Idle)
    (log : List Callback) (t : OpcodeE) (ht : t = .textMessage ∨ t = .binaryMessage)
    (ps : List Fragment) (hn : 2 ≤ ps.length) :
    (∃ w, parseFrame handler ⟨c, stream (Fragment.frames t ps), log⟩ = .ok w ∧
      w.callbacks = log ++ [.onMessageCallback (ps.flatMap (·.payload)) t]) ↔
    Fragment.KeysAlign 0 ps := by
  have hop : t.IsData := .inr ht
  have hs : c.Starts t := by
    rcases ht with rfl | rfl <;> simp [Context.Starts, hc.dataBuffer, OpcodeE.IsControl]
  have htype : (c.dataMessage.startData t).messageType = t := by simp [Message.startData, ht]
  have hoff : c.dataMessage.segmentOffset = c.dataMessage.messageBuffer.length := by
    simpa [Message.Inv, hc.dataBuffer] using hc.data
  have hall := consumeAll_fragments .unControlFrame hc.toBoundary hop hs (htype.symm ▸ ht) hoff ps
    (fun h => by simp [h] at hn)
  rw [parseFrame_stream handler hc.toBoundary _ (Fragment.frames_prompt t ps), hall, htype,
    ← Fragment.gathered_eq_iff]
  simp [Except.map, hc.dataBuffer]

/-- Fragments of four and of two bytes, each with its own key. -/
theorem parseFrame_fragments_four_two :
    ∃ w, parseFrame .retrieveAll ⟨.connected, stream (Fragment.frames .textMessage
        [⟨![1, 2, 3, 4], [0x48, 0x65, 0x6c, 0x6c], .bits7, by decide⟩,
          ⟨![5, 6, 7, 8], [0x6f, 0x21], .bits7, by decide⟩]), []⟩ = .ok w ∧
      w.callbacks = [.onMessageCallback [0x48, 0x65, 0x6c, 0x6c, 0x6f, 0x21] .textMessage] :=
  (parseFrame_fragments_iff .retrieveAll .connected Context.connected_idle [] .textMessage
    (.inl rfl) _ (by decide)).mpr (by decide)

/-- A first fragment of one byte: the second byte arrives as `0x4b` instead of `0x48`. -/
theorem parseFrame_fragments_misread :
    (parseFrame .retrieveAll ⟨.connected, stream (Fragment.frames .textMessage
        [⟨![1, 2, 3, 4], [0x48], .bits7, by decide⟩,
          ⟨![1, 2, 3, 4], [0x48], .bits7, by decide⟩]), []⟩).map (·.callbacks) =
      .ok [.onMessageCallback [0x48, 0x4b] .textMessage] := by
  rfl

end LibWebsocket.Websocket
