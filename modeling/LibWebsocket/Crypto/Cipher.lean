import LibWebsocket.Lib.Quad
import LibWebsocket.Lib.ByteOrder

/-! The built-in AES of `https/AES_Cipher.cpp`: one block in each direction. -/
namespace LibWebsocket.Crypto
open Lib

/-! ## Tables and bytes -/

def scSbox : Bytes :=
   [0x63, 0x7c, 0x77, 0x7b, 0xf2, 0x6b, 0x6f, 0xc5, 0x30, 0x01, 0x67, 0x2b, 0xfe, 0xd7, 0xab, 0x76,
    0xca, 0x82, 0xc9, 0x7d, 0xfa, 0x59, 0x47, 0xf0, 0xad, 0xd4, 0xa2, 0xaf, 0x9c, 0xa4, 0x72, 0xc0,
    0xb7, 0xfd, 0x93, 0x26, 0x36, 0x3f, 0xf7, 0xcc, 0x34, 0xa5, 0xe5, 0xf1, 0x71, 0xd8, 0x31, 0x15,
    0x04, 0xc7, 0x23, 0xc3, 0x18, 0x96, 0x05, 0x9a, 0x07, 0x12, 0x80, 0xe2, 0xeb, 0x27, 0xb2, 0x75,
    0x09, 0x83, 0x2c, 0x1a, 0x1b, 0x6e, 0x5a, 0xa0, 0x52, 0x3b, 0xd6, 0xb3, 0x29, 0xe3, 0x2f, 0x84,
    0x53, 0xd1, 0x00, 0xed, 0x20, 0xfc, 0xb1, 0x5b, 0x6a, 0xcb, 0xbe, 0x39, 0x4a, 0x4c, 0x58, 0xcf,
    0xd0, 0xef, 0xaa, 0xfb, 0x43, 0x4d, 0x33, 0x85, 0x45, 0xf9, 0x02, 0x7f, 0x50, 0x3c, 0x9f, 0xa8,
    0x51, 0xa3, 0x40, 0x8f, 0x92, 0x9d, 0x38, 0xf5, 0xbc, 0xb6, 0xda, 0x21, 0x10, 0xff, 0xf3, 0xd2,
    0xcd, 0x0c, 0x13, 0xec, 0x5f, 0x97, 0x44, 0x17, 0xc4, 0xa7, 0x7e, 0x3d, 0x64, 0x5d, 0x19, 0x73,
    0x60, 0x81, 0x4f, 0xdc, 0x22, 0x2a, 0x90, 0x88, 0x46, 0xee, 0xb8, 0x14, 0xde, 0x5e, 0x0b, 0xdb,
    0xe0, 0x32, 0x3a, 0x0a, 0x49, 0x06, 0x24, 0x5c, 0xc2, 0xd3, 0xac, 0x62, 0x91, 0x95, 0xe4, 0x79,
    0xe7, 0xc8, 0x37, 0x6d, 0x8d, 0xd5, 0x4e, 0xa9, 0x6c, 0x56, 0xf4, 0xea, 0x65, 0x7a, 0xae, 0x08,
    0xba, 0x78, 0x25, 0x2e, 0x1c, 0xa6, 0xb4, 0xc6, 0xe8, 0xdd, 0x74, 0x1f, 0x4b, 0xbd, 0x8b, 0x8a,
    0x70, 0x3e, 0xb5, 0x66, 0x48, 0x03, 0xf6, 0x0e, 0x61, 0x35, 0x57, 0xb9, 0x86, 0xc1, 0x1d, 0x9e,
    0xe1, 0xf8, 0x98, 0x11, 0x69, 0xd9, 0x8e, 0x94, 0x9b, 0x1e, 0x87, 0xe9, 0xce, 0x55, 0x28, 0xdf,
    0x8c, 0xa1, 0x89, 0x0d, 0xbf, 0xe6, 0x42, 0x68, 0x41, 0x99, 0x2d, 0x0f, 0xb0, 0x54, 0xbb, 0x16]

def scRsbox : Bytes :=
   [0x52, 0x09, 0x6a, 0xd5, 0x30, 0x36, 0xa5, 0x38, 0xbf, 0x40, 0xa3, 0x9e, 0x81, 0xf3, 0xd7, 0xfb,
    0x7c, 0xe3, 0x39, 0x82, 0x9b, 0x2f, 0xff, 0x87, 0x34, 0x8e, 0x43, 0x44, 0xc4, 0xde, 0xe9, 0xcb,
    0x54, 0x7b, 0x94, 0x32, 0xa6, 0xc2, 0x23, 0x3d, 0xee, 0x4c, 0x95, 0x0b, 0x42, 0xfa, 0xc3, 0x4e,
    0x08, 0x2e, 0xa1, 0x66, 0x28, 0xd9, 0x24, 0xb2, 0x76, 0x5b, 0xa2, 0x49, 0x6d, 0x8b, 0xd1, 0x25,
    0x72, 0xf8, 0xf6, 0x64, 0x86, 0x68, 0x98, 0x16, 0xd4, 0xa4, 0x5c, 0xcc, 0x5d, 0x65, 0xb6, 0x92,
    0x6c, 0x70, 0x48, 0x50, 0xfd, 0xed, 0xb9, 0xda, 0x5e, 0x15, 0x46, 0x57, 0xa7, 0x8d, 0x9d, 0x84,
    0x90, 0xd8, 0xab, 0x00, 0x8c, 0xbc, 0xd3, 0x0a, 0xf7, 0xe4, 0x58, 0x05, 0xb8, 0xb3, 0x45, 0x06,
    0xd0, 0x2c, 0x1e, 0x8f, 0xca, 0x3f, 0x0f, 0x02, 0xc1, 0xaf, 0xbd, 0x03, 0x01, 0x13, 0x8a, 0x6b,
    0x3a, 0x91, 0x11, 0x41, 0x4f, 0x67, 0xdc, 0xea, 0x97, 0xf2, 0xcf, 0xce, 0xf0, 0xb4, 0xe6, 0x73,
    0x96, 0xac, 0x74, 0x22, 0xe7, 0xad, 0x35, 0x85, 0xe2, 0xf9, 0x37, 0xe8, 0x1c, 0x75, 0xdf, 0x6e,
    0x47, 0xf1, 0x1a, 0x71, 0x1d, 0x29, 0xc5, 0x89, 0x6f, 0xb7, 0x62, 0x0e, 0xaa, 0x18, 0xbe, 0x1b,
    0xfc, 0x56, 0x3e, 0x4b, 0xc6, 0xd2, 0x79, 0x20, 0x9a, 0xdb, 0xc0, 0xfe, 0x78, 0xcd, 0x5a, 0xf4,
    0x1f, 0xdd, 0xa8, 0x33, 0x88, 0x07, 0xc7, 0x31, 0xb1, 0x12, 0x10, 0x59, 0x27, 0x80, 0xec, 0x5f,
    0x60, 0x51, 0x7f, 0xa9, 0x19, 0xb5, 0x4a, 0x0d, 0x2d, 0xe5, 0x7a, 0x9f, 0x93, 0xc9, 0x9c, 0xef,
    0xa0, 0xe0, 0x3b, 0x4d, 0xae, 0x2a, 0xf5, 0xb0, 0xc8, 0xeb, 0xbb, 0x3c, 0x83, 0x53, 0x99, 0x61,
    0x17, 0x2b, 0x04, 0x7e, 0xba, 0x77, 0xd6, 0x26, 0xe1, 0x69, 0x14, 0x63, 0x55, 0x21, 0x0c, 0x7d]

/-- The round constants; of the 255 entries of the source the first eleven are read. -/
def scRcon : Bytes :=
  [0x8d, 0x01, 0x02, 0x04, 0x08, 0x10, 0x20, 0x40, 0x80, 0x1b, 0x36]

def getSBoxValue (num : UInt8) : UInt8 := scSbox.getD num.toNat 0

def getSBoxInvert (num : UInt8) : UInt8 := scRsbox.getD num.toNat 0

def xtime (x : UInt8) : UInt8 := (x <<< 1) ^^^ (((x >>> 7) &&& 1) * 0x1b)

def multiply (x y : UInt8) : UInt8 :=
  ((y &&& (1 : UInt8)) * x) ^^^
  ((y >>> 1 &&& (1 : UInt8)) * xtime x) ^^^
  ((y >>> 2 &&& (1 : UInt8)) * xtime (xtime x)) ^^^
  ((y >>> 3 &&& (1 : UInt8)) * xtime (xtime (xtime x))) ^^^
  ((y >>> 4 &&& (1 : UInt8)) * xtime (xtime (xtime (xtime x))))

/-! ## The key schedule -/

/-- One turn of the loop of `KeyExpansion`: word `i` behind the words that are there. -/
def keyWord (roundKey : Bytes) (i : ℕ) : Bytes :=
  let temp : Quad UInt8 := Quad.ofFn fun j => roundKey.getD ((i - 1) * 4 + j) 0
  let temp := if i % 4 = 0 then
      let sub := temp.rotate.map getSBoxValue
      { sub with x0 := sub.x0 ^^^ scRcon.getD (i / 4) 0 }
    else temp
  -- the branch for `NK > 6` is never taken: `NK` is 4
  roundKey ++ (temp.mapIdx fun j t => roundKey.getD ((i - 4) * 4 + j) 0 ^^^ t).toList

/-- `KeyExpansion`; the bytes of `mRoundKey` behind the 44 words stay zero and are not read. -/
def keyExpansion (key : Bytes) : Bytes := (List.range' 4 40).foldl keyWord (key.take 16)

/-! ## The state and its steps

`encrypt` fills the state by columns, `decrypt` works in its buffer, that is by rows. -/

/-- `state_t`: four rows. -/
abbrev State := Quad (Quad UInt8)

def addRoundKey (roundKey : Bytes) (round : ℕ) (state : State) : State :=
  state.mapIdx fun j row => row.mapIdx fun i x => x ^^^ roundKey.getD (round * 16 + i * 4 + j) 0

def invAddRoundKey (roundKey : Bytes) (round : ℕ) (state : State) : State :=
  state.mapIdx fun i row => row.mapIdx fun j x => x ^^^ roundKey.getD (round * 16 + i * 4 + j) 0

def subBytes (state : State) : State := state.map (Quad.map getSBoxValue)

def invSubBytes (state : State) : State := state.map (Quad.map getSBoxInvert)

def shiftRows (state : State) : State :=
  ⟨state.x0, state.x1.rotate, state.x2.rotate.rotate, state.x3.rotate.rotate.rotate⟩

/-- `InvShiftRows`: column `j` moves down by `j`. -/
def invShiftRows (s : State) : State :=
  ⟨⟨s.x0.x0, s.x3.x1, s.x2.x2, s.x1.x3⟩, ⟨s.x1.x0, s.x0.x1, s.x3.x2, s.x2.x3⟩,
   ⟨s.x2.x0, s.x1.x1, s.x0.x2, s.x3.x3⟩, ⟨s.x3.x0, s.x2.x1, s.x1.x2, s.x0.x3⟩⟩

/-- The body of the loop of `MixColumns`. -/
def mixColumn (col : Quad UInt8) : Quad UInt8 :=
  let tmp := col.x0 ^^^ col.x1 ^^^ col.x2 ^^^ col.x3
  ⟨col.x0 ^^^ (xtime (col.x0 ^^^ col.x1) ^^^ tmp), col.x1 ^^^ (xtime (col.x1 ^^^ col.x2) ^^^ tmp),
   col.x2 ^^^ (xtime (col.x2 ^^^ col.x3) ^^^ tmp), col.x3 ^^^ (xtime (col.x3 ^^^ col.x0) ^^^ tmp)⟩

def mixColumns (state : State) : State := (state.transpose.map mixColumn).transpose

/-- The body of the loop of `InvMixColumns`. -/
def invMixColumn : Quad UInt8 → Quad UInt8
  | ⟨a, b, c, d⟩ =>
    ⟨multiply a 0x0e ^^^ multiply b 0x0b ^^^ multiply c 0x0d ^^^ multiply d 0x09,
     multiply a 0x09 ^^^ multiply b 0x0e ^^^ multiply c 0x0b ^^^ multiply d 0x0d,
     multiply a 0x0d ^^^ multiply b 0x09 ^^^ multiply c 0x0e ^^^ multiply d 0x0b,
     multiply a 0x0b ^^^ multiply b 0x0d ^^^ multiply c 0x09 ^^^ multiply d 0x0e⟩

def invMixColumns (state : State) : State := state.map invMixColumn

/-! ## The cipher -/

def cipherRound (roundKey : Bytes) (state : State) (round : ℕ) : State :=
  addRoundKey roundKey round (mixColumns (shiftRows (subBytes state)))

def cipher (roundKey : Bytes) (state : State) : State :=
  let state := (List.range' 1 9).foldl (cipherRound roundKey) (addRoundKey roundKey 0 state)
  addRoundKey roundKey 10 (shiftRows (subBytes state))

def invCipherRound (roundKey : Bytes) (state : State) (round : ℕ) : State :=
  invMixColumns (invAddRoundKey roundKey round (invSubBytes (invShiftRows state)))

def invCipher (roundKey : Bytes) (state : State) : State :=
  let state := (List.range' 1 9).reverse.foldl (invCipherRound roundKey)
    (invAddRoundKey roundKey 10 state)
  invAddRoundKey roundKey 0 (invSubBytes (invShiftRows state))

/-- The sixteen bytes as the rows of `state_t`. -/
def State.ofBytes (input : Bytes) : State :=
  Quad.ofFn fun i => Quad.ofFn fun j => input.getD (i * 4 + j) 0

def State.toBytes (state : State) : Bytes := state.toList.flatMap Quad.toList

/-- `AES128_ECB_encrypt`: `(*mState)[j][i] = input[i * 4 + j]`, and back. -/
def aes128EcbEncrypt (key input : Bytes) : Bytes :=
  State.toBytes (cipher (keyExpansion key) (State.ofBytes input).transpose).transpose

/-- `AES128_ECB_decrypt`: the state is the output buffer. -/
def aes128EcbDecrypt (key input : Bytes) : Bytes :=
  (invCipher (keyExpansion key) (State.ofBytes input)).toBytes

/-! ## Each step is undone under the transposition -/

theorem getSBoxInvert_getSBoxValue : ∀ x : UInt8, getSBoxInvert (getSBoxValue x) = x :=
  forall_byte (by decide +kernel)

theorem invAddRoundKey_addRoundKey (roundKey : Bytes) (round : ℕ) (s : State) :
    invAddRoundKey roundKey round (addRoundKey roundKey round s).transpose = s.transpose := by
  simp only [invAddRoundKey, addRoundKey, Quad.transpose, Quad.map, Quad.mapIdx, xor_xor_cancel]

theorem invSubBytes_subBytes (s : State) : invSubBytes (subBytes s).transpose = s.transpose := by
  simp only [invSubBytes, subBytes, Quad.transpose, Quad.map, getSBoxInvert_getSBoxValue]

theorem invShiftRows_shiftRows (s : State) : invShiftRows (shiftRows s).transpose = s.transpose :=
  rfl

theorem top_bit : ∀ x : UInt8, x >>> 7 = 0 ∨ x >>> 7 = 1 := forall_byte (by decide +kernel)

theorem xtime_xor (x y : UInt8) : xtime (x ^^^ y) = xtime x ^^^ xtime y := by
  unfold xtime
  rw [UInt8.shiftLeft_xor, UInt8.shiftRight_xor]
  have hbit : ((x >>> 7 ^^^ y >>> 7) &&& (1 : UInt8)) * (0x1b : UInt8) =
      ((x >>> 7 &&& (1 : UInt8)) * (0x1b : UInt8)) ^^^
        ((y >>> 7 &&& (1 : UInt8)) * (0x1b : UInt8)) := by
    rcases top_bit x with hx | hx <;> rcases top_bit y with hy | hy <;> rw [hx, hy] <;> decide
  rw [hbit]
  ac_rfl

theorem low_bit : ∀ x : UInt8, x &&& 1 = 0 ∨ x &&& 1 = 1 := forall_byte (by decide +kernel)

theorem low_bit_mul_xor (b x y : UInt8) :
    (b &&& 1) * (x ^^^ y) = ((b &&& 1) * x) ^^^ ((b &&& 1) * y) := by
  rcases low_bit b with h | h <;> simp [h]

theorem multiply_xor (x y k : UInt8) : multiply (x ^^^ y) k = multiply x k ^^^ multiply y k := by
  simp only [multiply, xtime_xor, low_bit_mul_xor]
  ac_rfl

theorem additive_mixColumn : Quad.Additive mixColumn := by
  intro p q
  simp only [mixColumn, Quad.xor, xtime_xor]
  congr 1 <;> ac_rfl

theorem additive_invMixColumn : Quad.Additive invMixColumn := by
  intro p q
  simp only [invMixColumn, Quad.xor, multiply_xor]
  congr 1 <;> ac_rfl

/-- Both maps are additive, so that the single bits are enough to check. -/
theorem invMixColumn_mixColumn (col : Quad UInt8) : invMixColumn (mixColumn col) = col :=
  (additive_mixColumn.comp additive_invMixColumn).eq_self (by decide +kernel) col

theorem invMixColumns_mixColumns (s : State) :
    invMixColumns (mixColumns s).transpose = s.transpose := by
  rw [mixColumns, invMixColumns, Quad.transpose_transpose,
    Quad.map_map_eq_self invMixColumn_mixColumn]

/-! ## The rounds, backwards -/

/-- The state in front of the inverse rounds: what the substitution and the shift made of the
state `s` of the encryption. -/
def shifted (s : State) : State := (shiftRows (subBytes s)).transpose

theorem invSubBytes_shifted (s : State) : invSubBytes (invShiftRows (shifted s)) = s.transpose := by
  rw [shifted, invShiftRows_shiftRows, invSubBytes_subBytes]

theorem invCipherRound_shifted (roundKey : Bytes) (s : State) (round : ℕ) :
    invCipherRound roundKey (shifted (cipherRound roundKey s round)) round = shifted s := by
  rw [invCipherRound, invSubBytes_shifted, cipherRound, invAddRoundKey_addRoundKey,
    invMixColumns_mixColumns, shifted]

/-- Over any list of rounds: the inverse rounds in the other order lead back. -/
theorem foldl_invCipherRound (roundKey : Bytes) (rounds : List ℕ) (s : State) :
    rounds.reverse.foldl (invCipherRound roundKey)
      (shifted (rounds.foldl (cipherRound roundKey) s)) = shifted s := by
  induction rounds generalizing s with
  | nil => rfl
  | cons round rounds ih =>
    rw [List.reverse_cons, List.foldl_append, List.foldl_cons (l := rounds), ih]
    exact invCipherRound_shifted roundKey s round

theorem invCipher_cipher (roundKey : Bytes) (s : State) :
    invCipher roundKey (cipher roundKey s).transpose = s.transpose := by
  unfold invCipher cipher
  simp only [invAddRoundKey_addRoundKey]
  rw [← shifted, foldl_invCipherRound, invSubBytes_shifted, invAddRoundKey_addRoundKey]

/-! ## One block -/

theorem ofBytes_toBytes (s : State) : State.ofBytes s.toBytes = s := rfl

theorem toBytes_ofBytes {block : Bytes} (h : block.length = 16) :
    (State.ofBytes block).toBytes = block := by
  match block, h with
  | [_, _, _, _, _, _, _, _, _, _, _, _, _, _, _, _], _ => rfl

@[simp] theorem length_aes128EcbEncrypt (key block : Bytes) :
    (aes128EcbEncrypt key block).length = 16 := rfl

@[simp] theorem length_aes128EcbDecrypt (key block : Bytes) :
    (aes128EcbDecrypt key block).length = 16 := rfl

theorem aes128EcbDecrypt_encrypt (key block : Bytes) (h : block.length = 16) :
    aes128EcbDecrypt key (aes128EcbEncrypt key block) = block := by
  rw [aes128EcbDecrypt, aes128EcbEncrypt, ofBytes_toBytes, invCipher_cipher,
    Quad.transpose_transpose, toBytes_ofBytes h]

example : aes128EcbEncrypt (List.replicate 16 0) (List.replicate 16 0) =
    [0x66, 0xe9, 0x4b, 0xd4, 0xef, 0x8a, 0x2c, 0x3b,
     0x88, 0x4c, 0xfa, 0x59, 0xca, 0x34, 0x2b, 0x2e] := by
  decide +kernel

end LibWebsocket.Crypto
