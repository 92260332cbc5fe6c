import Mathlib.Data.List.GetD
import LibWebsocket.Http.Parse
import LibWebsocket.Crypto.Cipher

/-! `AES_ECB_Cipher::encrypt` and `decrypt`: padding, the loop over the blocks, and the chaining
that `use_cbc` switches on. -/
namespace LibWebsocket.Crypto
open Lib

/-! ## Model -/

/-- What a call leaves: its return value, the destination buffer and the reference `len`. -/
structure Outcome where
  ret : ℤ
  dest : Bytes
  len : ℕ
deriving DecidableEq, Repr

/-- PKCS5: 1 to 16 bytes, each the number of them. -/
def padded (src : Bytes) : Bytes :=
  src ++ List.replicate (16 - src.length % 16) (UInt8.ofNat (16 - src.length % 16))

def xorBytes (x iv : Bytes) : Bytes := List.zipWith (· ^^^ ·) x iv

/-- The loop over the blocks, which both directions share: `iv` is the *input* of the block
before, in `encrypt` the plain block. -/
def blockLoop (aes : Bytes → Bytes) (useCbc : Bool) : ℕ → Bytes → Bytes → Bytes
  | 0, _, _ => []
  | round + 1, iv, buf =>
    let block := buf.take 16
    if useCbc then xorBytes (aes block) iv ++ blockLoop aes useCbc round block (buf.drop 16)
    else aes block ++ blockLoop aes useCbc round iv (buf.drop 16)

/-- `encrypt`; `none` stands for a store outside of the work buffer or of `dest`. A null pointer
is `src = none`. -/
def encrypt (key : Bytes) (useCbc : Bool) (src : Option Bytes) (dest : Bytes) (len : ℕ) :
    Option Outcome :=
  match src with
  | none => some ⟨-1, dest, len⟩
  | some src =>
    if len < src.length then some ⟨-1, dest, len⟩
    else
      let encodeBuf := padded src
      if 1024 < encodeBuf.length ∨ dest.length < encodeBuf.length then none
      else
        let len := encodeBuf.length
        let dest := blockLoop (aes128EcbEncrypt key) useCbc (len / 16) key encodeBuf ++ dest.drop len
        if len ≤ src.length then some ⟨-1, dest, len⟩
        else if dest.length ≤ len then none
        else some ⟨0, dest.set len 0, len⟩

/-- `decrypt`; the new `len` is an unsigned difference. -/
def decrypt (key : Bytes) (useCbc : Bool) (src : Option Bytes) (dest : Bytes) (len : ℕ) :
    Option Outcome :=
  match src with
  | none => some ⟨-1, dest, len⟩
  | some src =>
    if src.length = 0 then some ⟨-1, dest, len⟩
    else if len < src.length then some ⟨-1, dest, len⟩
    else if src.length % 16 ≠ 0 then some ⟨-1, dest, len⟩
    else if dest.length < src.length then none
    else
      let dest := blockLoop (aes128EcbDecrypt key) useCbc (src.length / 16) key src ++
        dest.drop src.length
      let lastASIIC := dest.getD (src.length - 1) 0
      let len := (2 ^ 32 + src.length - lastASIIC.toNat) % 2 ^ 32
      if src.length ≤ len then some ⟨-1, dest, len⟩
      else some ⟨0, dest.set len 0, len⟩

/-- `encrypt` returns 0, and `decrypt` of what it put out returns 0 and gives `src` and its
length. -/
def RoundTrip (key : Bytes) (useCbc : Bool) (src dest : Bytes) (len : ℕ) (dest' : Bytes)
    (len' : ℕ) : Prop :=
  ∃ out n, encrypt key useCbc (some src) dest len = some ⟨0, out, n⟩ ∧
    ∃ out', decrypt key useCbc (some (out.take n)) dest' len' = some ⟨0, out', src.length⟩ ∧
      out'.take src.length = src

/-! ## Blocks -/

/-- Block `i` of a buffer. -/
def block (buf : Bytes) (i : ℕ) : Bytes := (buf.drop (16 * i)).take 16

/-- What block `i` is chained with: the block before, or `iv`. -/
def chainedWith (iv buf : Bytes) : ℕ → Bytes
  | 0 => iv
  | i + 1 => block buf i

theorem length_block {buf : Bytes} {i : ℕ} (h : 16 * (i + 1) ≤ buf.length) :
    (block buf i).length = 16 := by
  simp [block]
  omega

theorem getD_block (buf : Bytes) (k : ℕ) :
    (block buf (k / 16)).getD (k % 16) 0 = buf.getD k 0 := by
  have hk : 16 * (k / 16) + k % 16 = k := Nat.div_add_mod k 16
  have hlt : k % 16 < 16 := Nat.mod_lt k (by decide)
  simp [block, List.getD_eq_getElem?_getD, hlt, hk]

theorem block_drop (buf : Bytes) (i : ℕ) : block (buf.drop 16) i = block buf (i + 1) := by
  simp only [block, List.drop_drop]
  congr 2
  omega

theorem block_append_zero {x : Bytes} (h : x.length = 16) (rest : Bytes) :
    block (x ++ rest) 0 = x := by
  simp [block, ← h]

theorem block_append_succ {x : Bytes} (h : x.length = 16) (rest : Bytes) (i : ℕ) :
    block (x ++ rest) (i + 1) = block rest i := by
  rw [← block_drop, ← h, List.drop_left]

theorem chainedWith_drop (iv buf : Bytes) (i : ℕ) :
    chainedWith (buf.take 16) (buf.drop 16) i = chainedWith iv buf (i + 1) := by
  cases i with
  | zero => rfl
  | succ i => exact block_drop buf i

@[simp] theorem length_xorBytes (x iv : Bytes) :
    (xorBytes x iv).length = min x.length iv.length := by
  simp [xorBytes]

theorem getD_xorBytes {x iv : Bytes} {j : ℕ} (hx : j < x.length) (hiv : j < iv.length) :
    (xorBytes x iv).getD j 0 = x.getD j 0 ^^^ iv.getD j 0 := by
  simp [xorBytes, List.getD_eq_getElem?_getD, hx, hiv]

theorem blockLoop_ecb_succ (aes : Bytes → Bytes) (round : ℕ) (iv buf : Bytes) :
    blockLoop aes false (round + 1) iv buf =
      aes (buf.take 16) ++ blockLoop aes false round iv (buf.drop 16) := by
  simp [blockLoop]

theorem blockLoop_cbc_succ (aes : Bytes → Bytes) (round : ℕ) (iv buf : Bytes) :
    blockLoop aes true (round + 1) iv buf =
      xorBytes (aes (buf.take 16)) iv ++ blockLoop aes true round (buf.take 16) (buf.drop 16) := by
  simp [blockLoop]

section Loop
variable {aes : Bytes → Bytes} (haes : ∀ b, (aes b).length = 16)
include haes

theorem length_blockLoop (useCbc : Bool) (round : ℕ) (iv buf : Bytes) (hiv : iv.length = 16)
    (hbuf : 16 * round ≤ buf.length) : (blockLoop aes useCbc round iv buf).length = 16 * round := by
  induction round generalizing iv buf with
  | zero => rfl
  | succ round ih =>
    have hdrop : 16 * round ≤ (buf.drop 16).length := by
      rw [List.length_drop]
      omega
    cases useCbc with
    | true =>
      rw [blockLoop_cbc_succ, List.length_append, length_xorBytes, haes, hiv,
        ih _ _ (by simp; omega) hdrop]
      omega
    | false =>
      rw [blockLoop_ecb_succ, List.length_append, haes, ih iv _ hiv hdrop]
      omega

/-- Without chaining a cipher with an inverse is undone block by block. -/
theorem blockLoop_ecb_cancel {dec : Bytes → Bytes} (hdec : ∀ b, b.length = 16 → dec (aes b) = b)
    (round : ℕ) (iv iv' buf : Bytes) (hbuf : buf.length = 16 * round) :
    blockLoop dec false round iv (blockLoop aes false round iv' buf) = buf := by
  induction round generalizing buf with
  | zero => exact (List.eq_nil_of_length_eq_zero hbuf).symm
  | succ round ih =>
    rw [blockLoop_ecb_succ dec, blockLoop_ecb_succ aes, List.take_left' (haes _),
      List.drop_left' (haes _), hdec _ (by simp; omega), ih _ (by simp; omega),
      List.take_append_drop]

/-- With chaining each block is combined with the input block before it. -/
theorem block_blockLoop_cbc (round : ℕ) (iv buf : Bytes) (hiv : iv.length = 16)
    (hbuf : 16 * round ≤ buf.length) (i : ℕ) (hi : i < round) :
    block (blockLoop aes true round iv buf) i =
      xorBytes (aes (block buf i)) (chainedWith iv buf i) := by
  induction round generalizing iv buf i with
  | zero => omega
  | succ round ih =>
    have hout : (xorBytes (aes (buf.take 16)) iv).length = 16 := by
      rw [length_xorBytes, haes, hiv, Nat.min_self]
    rw [blockLoop_cbc_succ]
    -- behind the first block the loop goes on with that block as `iv`
    cases i with
    | zero => exact block_append_zero hout _
    | succ i =>
      rw [block_append_succ hout, ih _ _ (by simp; omega) (by simp; omega) i (by omega), block_drop,
        chainedWith_drop iv]

end Loop

/-! ## The two calls -/

theorem length_padded (src : Bytes) :
    (padded src).length = src.length + (16 - src.length % 16) := by
  simp [padded]

theorem length_padded_mod (src : Bytes) : 16 * ((padded src).length / 16) = (padded src).length := by
  rw [length_padded]
  omega

theorem div_lt_blocks (src : Bytes) {k : ℕ} (hk : k < (padded src).length) :
    k / 16 < (padded src).length / 16 := by
  have hmod := length_padded_mod src
  omega

theorem getD_padded_of_lt {src : Bytes} {k : ℕ} (hk : k < src.length) :
    (padded src).getD k 0 = src.getD k 0 := by
  simp [padded, List.getD_eq_getElem?_getD, List.getElem?_append_left hk]

theorem getD_padded_last (src : Bytes) :
    (padded src).getD ((padded src).length - 1) 0 =
      UInt8.ofNat ((padded src).length - src.length) := by
  have hmod := Nat.mod_lt src.length (by decide : 0 < 16)
  rw [length_padded, Nat.add_sub_cancel_left, padded, List.getD_append_right _ _ _ _ (by omega)]
  simp only [List.getD_eq_getElem?_getD, List.getElem?_replicate]
  rw [if_pos (by omega), Option.getD_some]

theorem take_eq_iff_getD {buf src : Bytes} (h : src.length ≤ buf.length) :
    buf.take src.length = src ↔ ∀ k < src.length, buf.getD k 0 = src.getD k 0 := by
  constructor
  · intro htake k hk
    conv_rhs => rw [← htake]
    simp [List.getD_eq_getElem?_getD, hk]
  · intro hbytes
    refine List.ext_getElem (by simpa using h) fun k hk hk' => ?_
    have hbyte := hbytes k hk'
    rw [List.getD_eq_getElem _ _ (hk'.trans_le h), List.getD_eq_getElem _ _ hk'] at hbyte
    rw [List.getElem_take, hbyte]

/-- The output of `encrypt`, and what `decrypt` makes of a text. -/
def ciphertext (key : Bytes) (useCbc : Bool) (src : Bytes) : Bytes :=
  blockLoop (aes128EcbEncrypt key) useCbc ((padded src).length / 16) key (padded src)

@[inherit_doc ciphertext]
def plaintext (key : Bytes) (useCbc : Bool) (src : Bytes) : Bytes :=
  blockLoop (aes128EcbDecrypt key) useCbc (src.length / 16) key src

section Calls
variable {key dest dest' : Bytes} {len len' : ℕ} (hkey : key.length = 16) (useCbc : Bool)
  (src : Bytes)
include hkey

theorem length_ciphertext : (ciphertext key useCbc src).length = (padded src).length := by
  rw [ciphertext, length_blockLoop (length_aes128EcbEncrypt key) useCbc _ _ _ hkey,
    length_padded_mod]
  rw [length_padded_mod]

theorem length_plaintext {text : Bytes} (hmod : 16 * (text.length / 16) = text.length) :
    (plaintext key useCbc text).length = text.length := by
  rw [plaintext, length_blockLoop (length_aes128EcbDecrypt key) useCbc _ _ _ hkey hmod.le, hmod]

theorem encrypt_eq (hsrc : src.length ≤ len) (hbuf : (padded src).length ≤ 1024)
    (hdest : (padded src).length < dest.length) :
    encrypt key useCbc (some src) dest len =
      some ⟨0, (ciphertext key useCbc src ++ dest.drop (padded src).length).set
        (padded src).length 0, (padded src).length⟩ := by
  have hlen := length_ciphertext hkey useCbc src
  have hpad := length_padded src
  have hmod := Nat.mod_lt src.length (by decide : 0 < 16)
  simp only [encrypt]
  rw [← ciphertext, if_neg (by omega), if_neg (by omega), if_neg (by omega), if_neg]
  rw [List.length_append, hlen, List.length_drop]
  omega

/-- What `decrypt` needs of the text it computes: the count of the padding in its last byte, and
the text in front of it. -/
theorem decrypt_eq_iff {text : Bytes} (hpos : src.length < text.length)
    (hpad : text.length - src.length < 256) (hmod : 16 * (text.length / 16) = text.length)
    (hfit : text.length < 2 ^ 32) (hlen : text.length ≤ len) (hdest : text.length ≤ dest.length) :
    (∃ out, decrypt key useCbc (some text) dest len = some ⟨0, out, src.length⟩ ∧
        out.take src.length = src) ↔
      (plaintext key useCbc text).getD (text.length - 1) 0 =
          UInt8.ofNat (text.length - src.length) ∧
        (plaintext key useCbc text).take src.length = src := by
  have hout := length_plaintext hkey useCbc hmod
  have htake : ((plaintext key useCbc text ++ dest.drop text.length).set src.length 0).take
      src.length = (plaintext key useCbc text).take src.length := by
    rw [List.take_set_of_le (Nat.le_refl _), List.take_append_of_le_length (by omega)]
  simp only [decrypt]
  rw [← plaintext, List.getD_append _ _ _ _ (by omega), if_neg (by omega), if_neg (by omega),
    if_neg (by omega), if_neg (by omega)]
  generalize hlast : (plaintext key useCbc text).getD (text.length - 1) 0 = last
  have hbyte := last.toNat_lt
  -- the difference is the length of `src` exactly when `last` is the count
  have hcount : (2 ^ 32 + text.length - last.toNat) % 2 ^ 32 = src.length ↔
      last = UInt8.ofNat (text.length - src.length) := by
    rw [← UInt8.toNat_inj, UInt8.toNat_ofNat', Nat.mod_eq_of_lt hpad]
    omega
  constructor
  · rintro ⟨out, hcall, hsrc⟩
    split at hcall
    · simp at hcall
    · simp only [Option.some.injEq, Outcome.mk.injEq, true_and] at hcall
      obtain ⟨hbuf, hnew⟩ := hcall
      rw [← hbuf, hnew, htake] at hsrc
      exact ⟨hcount.mp hnew, hsrc⟩
  · rintro ⟨hlast', hsrc⟩
    rw [hcount.mpr hlast', if_neg (by omega)]
    exact ⟨_, rfl, htake.trans hsrc⟩

/-- The round trip depends on the bytes of `src` and on the last byte of the padding. -/
theorem roundTrip_iff_bytes (hsrc : src.length ≤ len) (hbuf : (padded src).length ≤ 1024)
    (hdest : (padded src).length < dest.length) (hlen' : (padded src).length ≤ len')
    (hdest' : (padded src).length ≤ dest'.length) :
    RoundTrip key useCbc src dest len dest' len' ↔
      ∀ k, (k < src.length ∨ k + 1 = (padded src).length) →
        (plaintext key useCbc (ciphertext key useCbc src)).getD k 0 = (padded src).getD k 0 := by
  have hc := length_ciphertext hkey useCbc src
  have hpad := length_padded src
  have hmod := length_padded_mod src
  have htake : ((ciphertext key useCbc src ++ dest.drop (padded src).length).set
      (padded src).length 0).take (padded src).length = ciphertext key useCbc src := by
    rw [List.take_set_of_le (Nat.le_refl _), ← hc, List.take_left]
  have hmod' : 16 * ((ciphertext key useCbc src).length / 16) = (ciphertext key useCbc src).length := by
    rw [hc, hmod]
  have hout := length_plaintext hkey useCbc hmod'
  have hdec := decrypt_eq_iff hkey useCbc src (by omega) (by omega) hmod' (by omega)
    (hc.trans_le hlen') (hc.trans_le hdest')
  rw [take_eq_iff_getD (by omega), hc, ← getD_padded_last] at hdec
  have henc := encrypt_eq hkey useCbc src hsrc hbuf hdest
  constructor
  · rintro ⟨out, n, hcall, hback⟩
    rw [henc] at hcall
    obtain ⟨rfl, rfl⟩ : _ = out ∧ _ = n := by simpa using hcall
    rw [htake, hdec] at hback
    rintro k (hk | hk)
    · rw [hback.2 k hk, getD_padded_of_lt hk]
    · obtain rfl : k = (padded src).length - 1 := by omega
      exact hback.1
  · intro hbytes
    refine ⟨_, _, henc, ?_⟩
    rw [htake, hdec]
    refine ⟨hbytes _ (Or.inr (by omega)), fun k hk => ?_⟩
    rw [hbytes k (Or.inl hk), getD_padded_of_lt hk]

end Calls

/-! ## With and without chaining -/

/-- Block `i` as `encrypt` chains it. -/
def cbcBlock (key plain : Bytes) (i : ℕ) : Bytes :=
  xorBytes (aes128EcbEncrypt key (block plain i)) (chainedWith key plain i)

/-- What `decrypt` chains block `i` with: the cipher block before. -/
def cbcChain (key plain : Bytes) : ℕ → Bytes
  | 0 => key
  | i + 1 => cbcBlock key plain i

/-- The plain block that `encrypt` adds behind the cipher comes out of the inverse cipher as the
cipher block before, in the bytes of `src` and in the last byte. -/
def ChainingCancels (key src : Bytes) : Prop :=
  ∀ k, (k < src.length ∨ k + 1 = (padded src).length) →
    (aes128EcbDecrypt key (cbcBlock key (padded src) (k / 16))).getD (k % 16) 0 =
      (padded src).getD k 0 ^^^ (cbcChain key (padded src) (k / 16)).getD (k % 16) 0

section Chaining
variable {key : Bytes} (hkey : key.length = 16) (src : Bytes)
include hkey

theorem plaintext_ciphertext_ecb : plaintext key false (ciphertext key false src) = padded src := by
  rw [plaintext, length_ciphertext hkey, ciphertext,
    blockLoop_ecb_cancel (length_aes128EcbEncrypt key) (aes128EcbDecrypt_encrypt key) _ _ _ _
      (length_padded_mod src).symm]

theorem block_ciphertext_cbc {i : ℕ} (hi : i < (padded src).length / 16) :
    block (ciphertext key true src) i = cbcBlock key (padded src) i := by
  rw [ciphertext, cbcBlock, block_blockLoop_cbc (length_aes128EcbEncrypt key) _ _ _ hkey _ i hi]
  rw [length_padded_mod]

theorem chainedWith_ciphertext {i : ℕ} (hi : i < (padded src).length / 16) :
    chainedWith key (ciphertext key true src) i = cbcChain key (padded src) i := by
  cases i with
  | zero => rfl
  | succ i => exact block_ciphertext_cbc hkey src (by omega)

theorem length_cbcChain {i : ℕ} (hi : i < (padded src).length / 16) :
    (cbcChain key (padded src) i).length = 16 := by
  have hmod := length_padded_mod src
  rw [← chainedWith_ciphertext hkey src hi]
  cases i with
  | zero => exact hkey
  | succ i => exact length_block (by rw [length_ciphertext hkey]; omega)

theorem getD_plaintext_cbc {k : ℕ} (hk : k < (padded src).length) :
    (plaintext key true (ciphertext key true src)).getD k 0 =
      (aes128EcbDecrypt key (cbcBlock key (padded src) (k / 16))).getD (k % 16) 0 ^^^
        (cbcChain key (padded src) (k / 16)).getD (k % 16) 0 := by
  have hi := div_lt_blocks src hk
  have hj : k % 16 < 16 := Nat.mod_lt k (by decide)
  have hc := length_ciphertext hkey true src
  rw [← getD_block, plaintext, hc,
    block_blockLoop_cbc (length_aes128EcbDecrypt key) _ _ _ hkey (by rw [length_padded_mod, hc]) _ hi,
    block_ciphertext_cbc hkey src hi, chainedWith_ciphertext hkey src hi,
    getD_xorBytes (by rwa [length_aes128EcbDecrypt]) (by rwa [length_cbcChain hkey src hi])]

/-- Without chaining the cipher is undone; with it the two directions chain with different blocks. -/
theorem plaintext_eq_iff (useCbc : Bool) :
    (∀ k, (k < src.length ∨ k + 1 = (padded src).length) →
        (plaintext key useCbc (ciphertext key useCbc src)).getD k 0 = (padded src).getD k 0) ↔
      useCbc = false ∨ ChainingCancels key src := by
  have hlt : ∀ k, (k < src.length ∨ k + 1 = (padded src).length) → k < (padded src).length := by
    intro k hk
    have hpad := length_padded src
    omega
  cases useCbc with
  | false => simp [plaintext_ciphertext_ecb hkey src]
  | true =>
    simp only [Bool.true_eq_false, false_or, ChainingCancels]
    refine forall₂_congr fun k hk => ?_
    rw [getD_plaintext_cbc hkey src (hlt k hk)]
    exact xor_eq_iff_eq_xor

end Chaining

/-- Each mode, any key and any text whose padding fits: without chaining the round trip always
works, with it only where the chaining happens to cancel. -/
theorem roundTrip_iff_chainingCancels {key src dest dest' : Bytes} {len len' : ℕ} (useCbc : Bool)
    (hkey : key.length = 16) (hbuf : (padded src).length ≤ 1024) (hsrc : src.length ≤ len)
    (hdest : (padded src).length < dest.length) (hlen' : (padded src).length ≤ len')
    (hdest' : (padded src).length ≤ dest'.length) :
    RoundTrip key useCbc src dest len dest' len' ↔ useCbc = false ∨ ChainingCancels key src :=
  (roundTrip_iff_bytes hkey useCbc src hsrc hbuf hdest hlen' hdest').trans
    (plaintext_eq_iff hkey src useCbc)

theorem roundTrip_hello : RoundTrip (Http.ascii "0123456789abcdef") false (Http.ascii "hello")
    (List.replicate 17 0) 17 (List.replicate 17 0) 17 :=
  (roundTrip_iff_chainingCancels false (by decide) (by decide) (by decide) (by decide) (by decide)
    (by decide)).mpr (Or.inl rfl)

theorem not_roundTrip_hello : ¬ RoundTrip (Http.ascii "0123456789abcdef") true (Http.ascii "hello")
    (List.replicate 17 0) 17 (List.replicate 17 0) 17 := by
  rw [roundTrip_iff_bytes (by decide) true _ (by decide) (by decide) (by decide) (by decide)
    (by decide), plaintext_eq_iff (by decide)]
  rintro (hmode | hcancels)
  · exact absurd hmode (by decide)
  · exact absurd (hcancels 0 (Or.inl (by decide))) (by decide +kernel)

end LibWebsocket.Crypto
