import LibWebsocket.Rfc6455.Wire

/-! Fragmented messages of RFC 6455: the frames of one message follow each other, the first
has the opcode of the message, the others continue it, and only the last one is final. -/
namespace LibWebsocket.Rfc6455
open Lib

/-- Read at most `fuel` frames, which must be all there is. -/
def decodeUpTo? : ℕ → Bytes → Option (List Frame)
  | _, [] => some []
  | 0, _ :: _ => none
  | fuel + 1, b :: bs => do
    let (f, rest) ← decode? (b :: bs)
    let fs ← decodeUpTo? fuel rest
    some (f :: fs)

/-- Read frames until nothing is left. No frame is empty, so there are at most as many frames
as bytes. -/
def decodeAll? (bs : Bytes) : Option (List Frame) := decodeUpTo? bs.length bs

theorem length_wire_pos (f : WireFrame) : 0 < f.wire.length := by
  simp [WireFrame.wire]

theorem decodeUpTo?_stream (fs : List WireFrame) {fuel : ℕ} (hfuel : fs.length ≤ fuel) :
    decodeUpTo? fuel (stream fs) = some (fs.map WireFrame.toFrame) := by
  induction fs generalizing fuel with
  | nil =>
    cases fuel with
    | zero => rfl
    | succ fuel => rfl
  | cons f fs ih =>
    obtain ⟨fuel, rfl⟩ : ∃ n, fuel = n + 1 := Nat.exists_eq_succ_of_ne_zero (by
      rw [List.length_cons] at hfuel
      omega)
    have hdecode := decode?_wire f (stream fs)
    have htail : decodeUpTo? fuel (stream fs) = some (fs.map WireFrame.toFrame) :=
      ih (by simpa using hfuel)
    rw [stream_cons]
    cases hbs : f.wire ++ stream fs with
    | nil =>
      have hpos := length_wire_pos f
      rw [List.append_eq_nil_iff] at hbs
      simp [hbs.1] at hpos
    | cons b bs =>
      rw [hbs] at hdecode
      rw [decodeUpTo?, hdecode, Option.bind_eq_bind, Option.bind_some]
      dsimp only
      rw [htail]
      rfl

theorem length_le_length_stream (fs : List WireFrame) : fs.length ≤ (stream fs).length := by
  induction fs with
  | nil => exact le_rfl
  | cons f fs ih =>
    have hpos := length_wire_pos f
    rw [stream_cons, List.length_append, List.length_cons]
    omega

/-- The reference decoder reads a stream of frames back. -/
theorem decodeAll?_stream (fs : List WireFrame) :
    decodeAll? (stream fs) = some (fs.map WireFrame.toFrame) :=
  decodeUpTo?_stream fs (length_le_length_stream fs)

/-- `frames` are the unmasked fragments of a message that is cut every `k` bytes. -/
structure Fragments (opcode : Fin 16) (k : ℕ) (message : Bytes) (frames : List Frame) : Prop where
  /-- The number of frames is the length over `k`, rounded up. -/
  count : frames.length = (message.length + k - 1) / k
  opcodes : ∀ i f, frames[i]? = some f → f.opcode = if i = 0 then opcode else 0
  fins : ∀ i f, frames[i]? = some f → (f.fin = true ↔ i + 1 = frames.length)
  full : ∀ i f, frames[i]? = some f → i + 1 < frames.length → f.payload.length = k
  last : ∀ i f, frames[i]? = some f → i + 1 = frames.length →
    1 ≤ f.payload.length ∧ f.payload.length ≤ k
  unmasked : ∀ f ∈ frames, f.key = none
  payload : frames.flatMap Frame.payload = message

namespace Fragments
variable {opcode : Fin 16} {k : ℕ} {p message : Bytes} {frames : List Frame}

theorem eq_of_getElem?_singleton {f g : Frame} {i : ℕ} (h : [f][i]? = some g) :
    i = 0 ∧ g = f := by
  cases i with
  | zero => exact ⟨rfl, (Option.some.inj h).symm⟩
  | succ i => cases h

/-- What fits into one frame is its own only fragment. -/
theorem singleton (hp : 0 < p.length) (hk : p.length ≤ k) :
    Fragments opcode k p [⟨true, opcode, none, p⟩] where
  count := by
    rw [List.length_singleton]
    symm
    rw [Nat.div_eq_iff (by omega)]
    omega
  opcodes i f h := by
    obtain ⟨rfl, rfl⟩ := eq_of_getElem?_singleton h
    rfl
  fins i f h := by
    obtain ⟨rfl, rfl⟩ := eq_of_getElem?_singleton h
    simp
  full i f h hi := by
    rw [List.length_singleton] at hi
    omega
  last i f h _ := by
    obtain ⟨rfl, rfl⟩ := eq_of_getElem?_singleton h
    exact ⟨hp, hk⟩
  unmasked f h := by
    rw [List.mem_singleton.mp h]
  payload := by simp

theorem length_pos (h : Fragments opcode k message frames) (hm : 0 < message.length) :
    0 < frames.length := by
  rw [List.length_pos_iff]
  rintro rfl
  have := h.payload
  simp [← this] at hm

/-- A full frame in front of a message that is continued. -/
theorem cons (h : Fragments 0 k message frames) (hm : 0 < message.length) (hp : p.length = k)
    (hk : 0 < k) : Fragments opcode k (p ++ message) (⟨false, opcode, none, p⟩ :: frames) where
  count := by
    rw [List.length_cons, h.count, List.length_append, hp,
      show k + message.length + k - 1 = message.length + k - 1 + k by omega,
      Nat.add_div_right _ hk]
  opcodes i f hf := by
    cases i with
    | zero =>
      cases hf
      rfl
    | succ i =>
      rw [List.getElem?_cons_succ] at hf
      rw [h.opcodes i f hf, if_neg (Nat.succ_ne_zero i), ite_self]
  fins i f hf := by
    have hpos := h.length_pos hm
    rw [List.length_cons]
    cases i with
    | zero =>
      cases hf
      simp only [Bool.false_eq_true, false_iff]
      omega
    | succ i =>
      rw [List.getElem?_cons_succ] at hf
      rw [h.fins i f hf, Nat.add_right_cancel_iff]
  full i f hf hi := by
    cases i with
    | zero =>
      cases hf
      exact hp
    | succ i =>
      rw [List.getElem?_cons_succ] at hf
      exact h.full i f hf (by simpa using hi)
  last i f hf hi := by
    have hpos := h.length_pos hm
    rw [List.length_cons] at hi
    cases i with
    | zero => omega
    | succ i =>
      rw [List.getElem?_cons_succ] at hf
      exact h.last i f hf (by omega)
  unmasked := List.forall_mem_cons.mpr ⟨rfl, h.unmasked⟩
  payload := by rw [List.flatMap_cons, h.payload]

end Fragments

end LibWebsocket.Rfc6455
