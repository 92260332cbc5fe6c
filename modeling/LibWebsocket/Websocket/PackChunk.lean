import LibWebsocket.Rfc6455.Fragments
import LibWebsocket.Websocket.Loopback

/-! What the chunked sender writes, seen by a reader of the format: the fragments of one
message, cut every 1024 bytes. -/
namespace LibWebsocket.Websocket
open Lib Rfc6455

/-- The opcode that RFC 6455 gives the two types of messages. -/
def MessageT.opcode : MessageT → Fin 16
  | .tyTextMessage => 1
  | .tyBinaryMessage => 2

theorem MessageT.messageType_code (msgType : MessageT) :
    msgType.messageType.code = msgType.opcode := by
  cases msgType <;> rfl

section Segments
variable {k : ℕ} {hk : 0 < k} {hk' : k < 2 ^ 63}

/-- The continuation frames are the fragments of what they carry. -/
theorem segments_fragments {d : Bytes} (hd : 0 < d.length) :
    Fragments 0 k d ((segments k hk hk' d).map WireFrame.toFrame) := by
  -- The induction is that of `segments`: each frame takes `k` bytes of what is left.
  induction hn : d.length using Nat.strong_induction_on generalizing d with
  | _ n ih =>
    by_cases h : d.length ≤ k
    · rw [segments_of_le h]
      exact .singleton hd h
    · have hlt : k < d.length := not_le.mp h
      have hlen : (d.drop k).length = d.length - k := List.length_drop
      have htail := ih (d.length - k) (by omega) (d := d.drop k) (by omega) hlen
      have htake : (d.take k).length = k := by
        rw [List.length_take]
        omega
      have hcons : Fragments 0 k (d.take k ++ d.drop k)
          (⟨false, 0, none, d.take k⟩ :: (segments k hk hk' (d.drop k)).map WireFrame.toFrame) :=
        htail.cons (by omega) htake hk
      rw [segments_of_lt hlt]
      rwa [List.take_append_drop] at hcons

end Segments

/-- A message of more than 1024 bytes is appended as its fragments of 1024 bytes. -/
theorem packUnmaskDataFrame_fragments (buf data : Bytes) (msgType : MessageT)
    (hlen : 1024 < data.length) :
    ∃ out frames, packUnmaskDataFrame buf data msgType true = .ok (buf ++ out) ∧
      decodeAll? out = some frames ∧ Fragments msgType.opcode 1024 data frames := by
  have hdrop : 0 < (data.drop 1024).length := by
    rw [List.length_drop]
    omega
  have htake : (data.take 1024).length = 1024 := by
    rw [List.length_take]
    omega
  have hpack : packUnmaskDataFrame buf data msgType true =
      packUnmaskDataFrameChunk buf data msgType.messageType 1024 := if_pos ⟨rfl, hlen⟩
  have htail : Fragments 0 1024 (data.drop 1024)
      ((segments 1024 (by decide) (by decide) (data.drop 1024)).map WireFrame.toFrame) :=
    segments_fragments hdrop
  have hfragments : Fragments msgType.messageType.code 1024 (data.take 1024 ++ data.drop 1024)
      (⟨false, msgType.messageType.code, none, data.take 1024⟩ :: _) :=
    htail.cons hdrop htake (by decide)
  rw [List.take_append_drop] at hfragments
  refine ⟨_, _, hpack.trans (packUnmaskDataFrameChunk_eq buf data msgType.messageType_eq hlen),
    decodeAll?_stream _, ?_⟩
  rw [← msgType.messageType_code]
  exact hfragments

/-- Three frames of text, the last of 452 bytes. -/
theorem packUnmaskDataFrame_fragments_text :
    ∃ out frames, packUnmaskDataFrame [0x00] (List.replicate 2500 0x41) .tyTextMessage true =
        .ok ([0x00] ++ out) ∧
      decodeAll? out = some frames ∧ Fragments 1 1024 (List.replicate 2500 0x41) frames :=
  packUnmaskDataFrame_fragments [0x00] (List.replicate 2500 0x41) .tyTextMessage
    (by rw [List.length_replicate]; decide)

end LibWebsocket.Websocket
