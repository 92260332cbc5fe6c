import LibWebsocket.Lib.Byte
import LibWebsocket.Url.Codec

/-! `URL::Encode` and `URL::Decode`. The macro for the first digit of an escape shifts a byte by
more bits than an `int` has. -/
namespace LibWebsocket.Url
open Lib Http

/-- The characters that stand for a byte: itself, a `+` for a space, or its two digits. -/
def escapeByte (c : UInt8) : Bytes :=
  if unreserved c then [c] else if c = 32 then [43] else [37, toHex (c >>> 4), toHex (c % 16)]

/-- Each `%` is followed by the digits of the escaped byte, and decoding gives the string back. -/
def RoundTrip (ub : ℕ → ℕ → ℕ) (s : Bytes) : Prop :=
  encode ub s = s.flatMap escapeByte ∧ decode (encode ub s) = s

section Byte

theorem lowHex_eq : ∀ c : UInt8, lowHex c = toHex (c % 16) :=
  forall_byte (by decide +kernel)

theorem toHex_high_ne_zero : ∀ c : UInt8, toHex (c >>> 4) ≠ 0 :=
  forall_byte (by decide +kernel)

theorem hexToChar_toHex :
    ∀ c : UInt8, hexToChar (toHex (c >>> 4)) * 16 + hexToChar (toHex (c % 16)) = c :=
  forall_byte (by decide +kernel)

variable {c : UInt8} {ub : ℕ → ℕ → ℕ}

theorem ne_of_unreserved (h : unreserved c) : c ≠ 43 ∧ c ≠ 37 := by
  constructor
  · rintro rfl
    revert h
    decide
  · rintro rfl
    revert h
    decide

theorem decode_cons_of_ne {e : Bytes} (hplus : c ≠ 43) (hpercent : c ≠ 37) :
    decode (c :: e) = c :: decode e := by
  rw [decode.eq_def]
  simp only [if_neg hplus, if_neg hpercent]

theorem decode_plus (e : Bytes) : decode (43 :: e) = 32 :: decode e := by
  rw [decode.eq_def]
  rfl

/-- An escaped byte is decoded whatever follows it. -/
theorem decode_escapeByte (c : UInt8) (e : Bytes) : decode (escapeByte c ++ e) = c :: decode e := by
  unfold escapeByte
  split_ifs with h hspace
  · obtain ⟨hplus, hpercent⟩ := ne_of_unreserved h
    rw [List.singleton_append, decode_cons_of_ne hplus hpercent]
  · rw [List.singleton_append, decode_plus, hspace]
  · have hpercent : (37 : UInt8) ≠ 43 := by decide
    simp only [List.cons_append, List.nil_append, decode, if_neg hpercent, if_true,
      hexToChar_toHex]

theorem decode_flatMap_escapeByte (s : Bytes) : decode (s.flatMap escapeByte) = s := by
  induction s with
  | nil => rfl
  | cons c s ih => rw [List.flatMap_cons, decode_escapeByte, ih]

end Byte

section Encode
variable {s : Bytes} {ub : ℕ → ℕ → ℕ}

theorem length_encodeChar (c : UInt8) : (encodeChar ub c).length = (escapeByte c).length := by
  unfold encodeChar escapeByte
  split_ifs <;> rfl

theorem encodeChar_eq_iff (c : UInt8) :
    encodeChar ub c = escapeByte c ↔ unreserved c ∨ c = 32 ∨ highHex ub c = toHex (c >>> 4) := by
  unfold encodeChar escapeByte
  split_ifs with h hspace
  · simp [h]
  · simp [hspace]
  · simp [h, hspace, lowHex_eq]

/-- The digits are right exactly if those of each byte are. -/
theorem encode_eq_iff :
    encode ub s = s.flatMap escapeByte ↔ ∀ c ∈ s, encodeChar ub c = escapeByte c := by
  rw [encode]
  constructor
  · intro h
    induction s with
    | nil => simp
    | cons c s ih =>
      rw [List.flatMap_cons, List.flatMap_cons] at h
      obtain ⟨hc, hs⟩ := List.append_inj h (length_encodeChar c)
      exact List.forall_mem_cons.mpr ⟨hc, ih hs⟩
  · exact List.flatMap_congr

theorem roundTrip_iff :
    RoundTrip ub s ↔ ∀ c ∈ s, unreserved c ∨ c = 32 ∨ highHex ub c = toHex (c >>> 4) := by
  simp only [← encodeChar_eq_iff, ← encode_eq_iff]
  constructor
  · exact And.left
  · intro h
    exact ⟨h, by rw [h, decode_flatMap_escapeByte]⟩

/-- Whatever the shift gives, the round trip succeeds: exactly if no byte is escaped. -/
theorem forall_roundTrip_iff (s : Bytes) :
    (∀ ub, RoundTrip ub s) ↔ ∀ c ∈ s, unreserved c ∨ c = 32 := by
  constructor
  · intro h c hc
    have hzero : highHex (fun _ _ => 0) c = 0 := by
      simp [highHex, shiftRight]
    obtain hu | hspace | hhigh := roundTrip_iff.mp (h fun _ _ => 0) c hc
    · exact .inl hu
    · exact .inr hspace
    · exact absurd (hhigh.symm.trans hzero) (toHex_high_ne_zero c)
  · intro h ub
    exact roundTrip_iff.mpr fun c hc => (h c hc).imp_right .inl

/-- On a machine that takes the count of a shift modulo 32, the first digit is a zero byte. -/
theorem not_roundTrip_slash : ¬ RoundTrip (fun x n => x >>> (n % 32)) (ascii "/") := by
  intro h
  have hencode : encode (fun x n => x >>> (n % 32)) (ascii "/") = (ascii "/").flatMap escapeByte :=
    h.1
  revert hencode
  decide

end Encode

end LibWebsocket.Url
