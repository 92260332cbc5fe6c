import LibWebsocket.Websocket.Pack

/-! What the packers write, compared with the frame format. Up to 65535 bytes of payload the
two agree. A 64-bit length passes through an `int16_t` that keeps only its two high bytes. -/
namespace LibWebsocket.Websocket
open Lib Rfc6455

section Length

theorem int16ToInt64_eq (y : ℕ) :
    int16ToInt64 y = y % 2 ^ 16 + if 2 ^ 15 ≤ y % 2 ^ 16 then 2 ^ 64 - 2 ^ 16 else 0 := by
  have hlt : y % 2 ^ 16 < 2 ^ 64 := by omega
  rw [int16ToInt64, BitVec.toNat_signExtend, BitVec.toNat_setWidth, BitVec.msb_eq_decide,
    BitVec.toNat_ofNat, Nat.mod_eq_of_lt hlt]
  simp

/-- The payload lengths whose encoding survives: below the 64-bit class all of them, in it
those whose six low bytes repeat the sign of the `int16_t`. -/
def LengthSurvives (n : ℕ) : Prop :=
  n ≤ 65535 ∨ n % 2 ^ 48 = if n / 2 ^ 55 % 2 = 1 then 2 ^ 48 - 1 else 0

instance (n : ℕ) : Decidable (LengthSurvives n) := inferInstanceAs (Decidable (_ ∨ _))

theorem int16ToInt64_hostToNetwork64_iff (n : ℕ) :
    int16ToInt64 (Endian.hostToNetwork64 n) = Endian.hostToNetwork64 n ↔
      n % 2 ^ 48 = if n / 2 ^ 55 % 2 = 1 then 2 ^ 48 - 1 else 0 := by
  have hsplit : Endian.hostToNetwork64 n = byteSwap 2 (n / 256 ^ 6) + 256 ^ 2 * byteSwap 6 n :=
    byteSwap_add 6 2 n
  have hhigh : byteSwap 2 (n / 256 ^ 6) = n / 256 ^ 6 / 256 % 256 + 256 * (n / 256 ^ 6 % 256) := by
    simp [byteSwap, beBytes, leBytes, leNat]
  have hbit : n / 2 ^ 55 = n / 256 ^ 6 / 128 := by
    rw [Nat.div_div_eq_div_mul, show 256 ^ 6 * 128 = 2 ^ 55 by norm_num]
  -- The sign bit of the `int16_t` is bit 55 of the length.
  have hsign : 2 ^ 15 ≤ byteSwap 2 (n / 256 ^ 6) ↔ n / 2 ^ 55 % 2 = 1 := by
    rw [hhigh, hbit]
    generalize n / 256 ^ 6 = m
    omega
  have hlow : Endian.hostToNetwork64 n % 2 ^ 16 = byteSwap 2 (n / 256 ^ 6) := by
    have hlt := byteSwap_lt 2 (n / 256 ^ 6)
    omega
  rw [int16ToInt64_eq, hlow, hsplit, if_congr hsign rfl rfl]
  split_ifs with hs
  · have hones := byteSwap_eq_iff 6 n (2 ^ 48 - 1)
    rw [show byteSwap 6 (2 ^ 48 - 1) = 2 ^ 48 - 1 by decide] at hones
    omega
  · have hzero := byteSwap_eq_iff 6 n 0
    rw [show byteSwap 6 0 = 0 by decide] at hzero
    omega

end Length

section Packed
variable {op : OpcodeE} {fin : FinE}

/-- The header that is written for a payload of `n` bytes. -/
def packedHeader (op : OpcodeE) (fin : FinE) (n : ℕ) : Header where
  opcode := op
  rsv3 := false
  rsv2 := false
  rsv1 := false
  fin := fin
  payloadlen := Fin.ofNat 128 ((LenForm.shortest n).code n)
  mask := false

/-- The extended length that is written for a payload of `n` bytes. -/
def packedExtension (n : ℕ) : Bytes :=
  if n ≤ 65535 then (LenForm.shortest n).extension n
  else leBytes 8 (int16ToInt64 (Endian.hostToNetwork64 n))

def packed (op : OpcodeE) (fin : FinE) (d : Bytes) : Bytes :=
  (packedHeader op fin d.length).bytes ++ packedExtension d.length ++ d

/-- The three length classes. -/
theorem packPayloadlen_cases (n : ℕ) :
    (n < 126 ∧ packPayloadlen n = (n, 0, 0) ∧ LenForm.shortest n = .bits7) ∨
    (126 ≤ n ∧ n ≤ 65535 ∧ packPayloadlen n = (126, Endian.hostToNetwork16 n, 0) ∧
      LenForm.shortest n = .bits16) ∨
    (65535 < n ∧ packPayloadlen n = (127, 0, int16ToInt64 (Endian.hostToNetwork64 n)) ∧
      LenForm.shortest n = .bits64) := by
  unfold packPayloadlen LenForm.shortest
  by_cases h7 : n < 126
  · exact .inl ⟨h7, if_pos h7, if_pos h7⟩
  rw [if_neg h7, if_neg h7]
  by_cases h16 : n ≤ 65535
  · exact .inr (.inl ⟨by omega, h16, if_pos h16, if_pos (by omega)⟩)
  · exact .inr (.inr ⟨by omega, if_neg h16, if_neg (by omega)⟩)

theorem packPayloadlen_fst (n : ℕ) : (packPayloadlen n).1 = (LenForm.shortest n).code n := by
  obtain ⟨-, hp, hs⟩ | ⟨-, -, hp, hs⟩ | ⟨-, hp, hs⟩ := packPayloadlen_cases n <;>
    rw [hp, hs] <;> rfl

theorem shortest_code_lt (n : ℕ) : (LenForm.shortest n).code n < 128 := by
  obtain ⟨hn, -, hs⟩ | ⟨-, -, -, hs⟩ | ⟨-, -, hs⟩ := packPayloadlen_cases n <;>
    rw [hs, LenForm.code] <;> omega

theorem packedHeader_payloadlen (n : ℕ) :
    ((packedHeader op fin n).payloadlen : ℕ) = (LenForm.shortest n).code n :=
  Nat.mod_eq_of_lt (shortest_code_lt n)

theorem packUnmaskFrameHeader_eq (site : Site) (validate : Header → Except Failure Unit)
    (buf : Bytes) (op : OpcodeE) (fin : FinE) (n : ℕ) :
    packUnmaskFrameHeader site validate buf op fin ((LenForm.shortest n).code n) =
      (validate (packedHeader op fin n)).map fun _ =>
        (packedHeader op fin n, buf ++ (packedHeader op fin n).bytes) := by
  have hcode : (LenForm.shortest n).code n ≤ 127 := Nat.le_of_lt_succ (shortest_code_lt n)
  unfold packUnmaskFrameHeader
  rw [assert_pos hcode, ok_bind]
  change (validate (packedHeader op fin n) >>= fun _ => _) = _
  cases validate (packedHeader op fin n) <;> rfl

/-- A frame packer validates its header and then writes the whole frame. -/
theorem packUnmaskFrame_eq (site : Site) (validate : Header → Except Failure Unit)
    (beforeI64 : Except Failure Unit) (buf d : Bytes) (op : OpcodeE) (fin : FinE) :
    packUnmaskFrame (packUnmaskFrameHeader site validate) beforeI64 buf d op fin =
      (validate (packedHeader op fin d.length) >>= fun _ =>
        (if 65535 < d.length then beforeI64 else .ok ()).map fun _ =>
          (packedHeader op fin d.length, buf ++ packed op fin d)) := by
  have hmask : (packedHeader op fin d.length).mask = false := rfl
  unfold packUnmaskFrame
  simp only [packPayloadlen_fst, packUnmaskFrameHeader_eq]
  cases validate (packedHeader op fin d.length) with
  | error e => rfl
  | ok =>
    simp only [Except.map, ok_bind, hmask, pure_eq_ok, packed, packedExtension]
    obtain ⟨hn, hp, hs⟩ | ⟨-, hn, hp, hs⟩ | ⟨hn, hp, hs⟩ := packPayloadlen_cases d.length
    · have h126 : d.length ≠ 126 := by omega
      have h127 : d.length ≠ 127 := by omega
      have h16 : d.length ≤ 65535 := by omega
      simp [hs, h126, h127, h16, not_lt.mpr h16, LenForm.code, LenForm.extension]
    · simp [hs, hp, hn, not_lt.mpr hn, LenForm.code, LenForm.extension, Endian.hostToNetwork16,
        leBytes_byteSwap]
    · cases beforeI64 <;> simp [hs, hp, hn, not_le.mpr hn, LenForm.code]

theorem packUnmaskUncontrolFrame_eq (buf d : Bytes) (hop : op.IsData) :
    packUnmaskUncontrolFrame buf d op fin =
      .ok (packedHeader op fin d.length, buf ++ packed op fin d) := by
  have hrange : OpcodeE.segmentMessage.code ≤ op.code ∧ op.code ≤ OpcodeE.binaryMessage.code := by
    rcases hop with rfl | rfl | rfl <;> decide
  have hv : validateUncontrolFrameHeader (packedHeader op fin d.length) = .ok () :=
    assert_pos hrange
  unfold packUnmaskUncontrolFrame packUnmaskUncontrolFrameHeader
  rw [packUnmaskFrame_eq, hv]
  split_ifs <;> rfl

/-- A control packer takes what fits a 16-bit length, far more than the format allows. -/
theorem packUnmaskControl_eq (buf d : Bytes) (hop : op.IsControl) :
    packUnmaskControl op buf d =
      if d.length ≤ 65535 then .ok (buf ++ packed op .frameFinished d)
      else .error (.assertion .validateControlFrameHeader) := by
  have hpay : (packedHeader op .frameFinished d.length).payloadlen ≤ 126 ↔ d.length ≤ 65535 := by
    rw [Fin.le_def, packedHeader_payloadlen]
    change _ ≤ 126 ↔ _
    obtain ⟨hn, -, hs⟩ | ⟨-, hn, -, hs⟩ | ⟨hn, -, hs⟩ := packPayloadlen_cases d.length <;>
      rw [hs, LenForm.code] <;> omega
  have hrange : OpcodeE.closeMessage.code ≤ op.code ∧ op.code ≤ OpcodeE.pongMessage.code := by
    rcases hop with rfl | rfl | rfl <;> decide
  unfold packUnmaskControl packUnmaskControlFrame packUnmaskControlFrameHeader
  by_cases hlen : d.length ≤ 65535
  · have hv : validateControlFrameHeader (packedHeader op .frameFinished d.length) = .ok () := by
      unfold validateControlFrameHeader
      rw [assert_pos (hpay.mpr hlen), ok_bind]
      exact assert_pos hrange
    rw [packUnmaskFrame_eq, hv, if_neg (not_lt.mpr hlen), if_pos hlen]
    rfl
  · have hv : validateControlFrameHeader (packedHeader op .frameFinished d.length) =
        .error (.assertion .validateControlFrameHeader) := by
      unfold validateControlFrameHeader
      rw [assert_neg (fun h => hlen (hpay.mp h))]
      rfl
    rw [packUnmaskFrame_eq, hv, if_neg hlen]
    rfl

/-- The format's frame for a payload. -/
def frameOf (op : OpcodeE) (fin : FinE) (d : Bytes) (hd : d.length < 2 ^ 63) : WireFrame :=
  .unmasked (decide (fin = .frameFinished)) op.code d hd

theorem packedHeader_bytes {d : Bytes} (hd : d.length < 2 ^ 63) :
    (packedHeader op fin d.length).bytes =
      [(frameOf op fin d hd).head0, (frameOf op fin d hd).head1] := by
  rw [Header.bytes, packedHeader_payloadlen]
  cases fin <;> simp [packedHeader, frameOf, WireFrame.unmasked, WireFrame.head0, WireFrame.head1,
    Nat.add_comm]

theorem packedExtension_eq_iff (n : ℕ) :
    packedExtension n = (LenForm.shortest n).extension n ↔ LengthSurvives n := by
  unfold packedExtension LengthSurvives
  obtain ⟨hn, -, -⟩ | ⟨-, hn, -, -⟩ | ⟨hn, -, hs⟩ := packPayloadlen_cases n
  · simp [show n ≤ 65535 by omega]
  · simp [hn]
  · rw [if_neg (by omega), hs, LenForm.extension, ← leBytes_byteSwap,
      or_iff_right (by omega), ← int16ToInt64_hostToNetwork64_iff]
    constructor
    · intro h
      have hlt : int16ToInt64 (Endian.hostToNetwork64 n) < 256 ^ 8 :=
        (BitVec.isLt _).trans_eq (by norm_num)
      have hval := congrArg leNat h
      rwa [leNat_leBytes, leNat_leBytes, Nat.mod_eq_of_lt hlt,
        Nat.mod_eq_of_lt (byteSwap_lt 8 n)] at hval
    · intro h
      rw [h]
      rfl

theorem packed_eq_wire_iff {d : Bytes} (hd : d.length < 2 ^ 63) :
    packed op fin d = (frameOf op fin d hd).wire ↔ LengthSurvives d.length := by
  have hwire : (frameOf op fin d hd).wire = [(frameOf op fin d hd).head0,
      (frameOf op fin d hd).head1] ++ (LenForm.shortest d.length).extension d.length ++ d := by
    simp [WireFrame.wire, frameOf, WireFrame.unmasked, keyBytes, applyKey]
  rw [packed, packedHeader_bytes hd, hwire, List.append_left_inj, List.append_right_inj,
    packedExtension_eq_iff]

end Packed

/-- A data frame is packed in the format, so that a reader of the format gets it back, exactly
if its length survives. -/
theorem packUnmaskUncontrolFrame_format_iff (buf d : Bytes) (op : OpcodeE) (fin : FinE)
    (hop : op.IsData) (hd : d.length < 2 ^ 63) :
    (∃ header out, packUnmaskUncontrolFrame buf d op fin = .ok (header, buf ++ out) ∧
        out = (frameOf op fin d hd).wire ∧
        decode? out = some (⟨decide (fin = .frameFinished), op.code, none, d⟩, [])) ↔
      LengthSurvives d.length := by
  rw [packUnmaskUncontrolFrame_eq buf d hop, ← packed_eq_wire_iff hd]
  constructor
  · rintro ⟨header, out, hpack, hwire, -⟩
    simp only [Except.ok.injEq, Prod.mk.injEq, List.append_cancel_left_eq] at hpack
    rw [hpack.2, hwire]
  · intro hwire
    refine ⟨_, _, rfl, hwire, ?_⟩
    have hdecode := decode?_wire (frameOf op fin d hd) []
    rwa [List.append_nil, ← hwire] at hdecode

/-- A text frame with a 16-bit length. -/
theorem packUnmaskUncontrolFrame_format_text :
    ∃ header out, packUnmaskUncontrolFrame [] (List.replicate 300 0x41) .textMessage
        .frameFinished = .ok (header, [] ++ out) ∧
      out = (frameOf .textMessage .frameFinished (List.replicate 300 0x41)
        (by rw [List.length_replicate]; decide)).wire ∧
      decode? out = some (⟨true, 1, none, List.replicate 300 0x41⟩, []) :=
  (packUnmaskUncontrolFrame_format_iff [] (List.replicate 300 0x41) .textMessage .frameFinished
    (by decide) (by rw [List.length_replicate]; decide)).mpr
    (.inl (by rw [List.length_replicate]; decide))

theorem packUnmaskUncontrolFrame_of_length {d : Bytes} (hd : d.length = 65536) :
    ∃ header out, packUnmaskUncontrolFrame [] d .textMessage .frameFinished =
        .ok (header, [] ++ out) ∧
      out = [0x81, 0x7f, 0, 0, 0, 0, 0, 0, 0, 0] ++ d ∧
      decode? out = some (⟨true, 1, none, []⟩, d) := by
  have hpacked : packed .textMessage .frameFinished d =
      [0x81, 0x7f, 0, 0, 0, 0, 0, 0, 0, 0] ++ d := by
    rw [packed, hd]
    rfl
  refine ⟨_, _, packUnmaskUncontrolFrame_eq [] d (by decide), hpacked, ?_⟩
  rw [hpacked]
  rfl

/-- The length 65536 is written as zero: the peer reads an empty text frame and takes the
payload for the next frames. -/
theorem packUnmaskUncontrolFrame_misread :
    ∃ header out, packUnmaskUncontrolFrame [] (List.replicate 65536 0x41) .textMessage
        .frameFinished = .ok (header, [] ++ out) ∧
      out = [0x81, 0x7f, 0, 0, 0, 0, 0, 0, 0, 0] ++ List.replicate 65536 0x41 ∧
      decode? out = some (⟨true, 1, none, []⟩, List.replicate 65536 0x41) :=
  packUnmaskUncontrolFrame_of_length (List.length_replicate (n := 65536))

end LibWebsocket.Websocket
