import LibWebsocket.Lib.Fallible
import LibWebsocket.Crypto.Modes
import LibWebsocket.Crypto.Base64

/-! `https/aes.h`: `AES_ECBEncrypt` and `AES_ECBDecrypt`, the latter with the bounds of its
buffers. -/
namespace LibWebsocket.Crypto
open Lib

/-! ## Model -/

/-- The block functions of OpenSSL: a key, sixteen bytes in, sixteen bytes out. -/
structure OpenSsl where
  aesEncrypt : Bytes → Bytes → Bytes
  aesDecrypt : Bytes → Bytes → Bytes
  length_aesEncrypt : ∀ key block, (aesEncrypt key block).length = 16
  length_aesDecrypt : ∀ key block, (aesDecrypt key block).length = 16

/-- For equal keys of 128 bits one function undoes the other. -/
def OpenSsl.Inverts (ssl : OpenSsl) : Prop :=
  ∀ key block : Bytes, key.length = 16 → block.length = 16 →
    ssl.aesDecrypt key (ssl.aesEncrypt key block) = block

def padding (s : Bytes) : Bytes :=
  s ++ List.replicate (16 - s.length) (UInt8.ofNat (16 - s.length))

/-- `StringToHex` with a destination of sixteen bytes; a null pointer is `none`. -/
def stringToHex (pSrc : Option Bytes) : Bytes :=
  padding (((pSrc.getD []).takeWhile (· ≠ 0)).take 16)

/-- The loop of `AES_ECBEncrypt`; each turn reads the rest of the source as a C string. -/
def encryptLoop (aes : Bytes → Bytes) (pTmpSrc : Bytes) : Bytes :=
  if pTmpSrc = [] then []
  else aes (stringToHex (some pTmpSrc)) ++ encryptLoop aes (pTmpSrc.drop 16)
termination_by pTmpSrc.length
decreasing_by
  rw [List.length_drop]
  have := List.length_pos_iff.mpr ‹pTmpSrc ≠ []›
  omega

/-- The bytes that `AES_ECBEncrypt` hands to Base64. -/
def encryptBlocks (aes : Bytes → Bytes) (data : Bytes) : Bytes :=
  let nDestLen := data.length / 16 * 16 + 16
  let dest := encryptLoop aes data
  if dest.length < nDestLen then dest ++ aes (stringToHex none) else dest

def aesEcbEncrypt (ssl : OpenSsl) (data key : Bytes) : Bytes :=
  Base64.encode (encryptBlocks (ssl.aesEncrypt (stringToHex (some key))) data)

/-- An access outside of the decoded source or of `dst`, or a string in `dst` without an end. -/
inductive Fault
  | src
  | dst
  | unterminated
deriving DecidableEq, Repr

def load (mem : Bytes) (i : ℤ) : Except Fault UInt8 :=
  if 0 ≤ i ∧ i < mem.length then .ok (mem.getD i.toNat 0) else .error .dst

def store (mem : Bytes) (i : ℤ) (x : UInt8) : Except Fault Bytes :=
  if 0 ≤ i ∧ i < mem.length then .ok (mem.set i.toNat x) else .error .dst

/-- The decryption loop: `len` and `dst` when it ends. -/
def decryptLoop (aes : Bytes → Bytes) (src dst : Bytes) (len : ℕ) : Except Fault (ℕ × Bytes) :=
  if len < src.length then
    if src.length < len + 16 then .error .src
    else if dst.length < len + 16 then .error .dst
    else
      let out := aes ((src.drop len).take 16)
      decryptLoop aes src (dst.take len ++ out ++ dst.drop (len + 16)) (len + 16)
  else .ok (len, dst)
termination_by src.length - len

/-- The second loop of `ClearPadding`, with the turns that are left. -/
def clearLoop (pSrc : Bytes) (nSrcLen : ℤ) : ℕ → ℤ → Except Fault Bytes
  | 0, _ => .ok pSrc
  | turns + 1, i => do
    let last ← load pSrc (nSrcLen - 1)
    let x ← load pSrc (nSrcLen - 1 - i)
    if last ≠ x then store pSrc (nSrcLen - i) 0 else clearLoop pSrc nSrcLen turns (i + 1)

def clearPadding (pSrc : Bytes) (nSrcLen : ℤ) : Except Fault Bytes := do
  let nEnd := nSrcLen
  let nStart := (nSrcLen / 16 - 1) * 16
  let last ← load pSrc (nSrcLen - 1)
  let second ← load pSrc (nSrcLen - 2)
  if last ≠ second then
    if ∃ i < 16, last.toNat = i then store pSrc (nSrcLen - 1) 0 else .ok pSrc
  else clearLoop pSrc nSrcLen (nEnd - nStart - 1).toNat 2

/-- `std::string((char const*)dst)`. -/
def cString (mem : Bytes) : Except Fault Bytes :=
  if 0 ∈ mem then .ok (mem.takeWhile (· ≠ 0)) else .error .unterminated

/-- `AES_ECBDecrypt`; `past` are the bytes behind `dst` that may be accessed as well, `accepts`
is the regular expression. -/
def aesEcbDecrypt (ssl : OpenSsl) (accepts : Bytes → Bool) (past data key : Bytes) :
    Except Fault Bytes :=
  let strSrcHex := Base64.decode data
  if strSrcHex = [] then .ok []
  -- `AES_set_decrypt_key` refuses other lengths
  else if ¬ key.length * 8 ∈ [128, 192, 256] then .ok []
  else do
    let dst := List.replicate strSrcHex.length 0 ++ past
    let (len, dst) ← decryptLoop (ssl.aesDecrypt key) strSrcHex dst 0
    let dst ← clearPadding dst strSrcHex.length
    let dst ← store dst len 0
    let s ← cString dst
    .ok (if accepts s then s else [])

/-! ## Accesses -/

theorem store_eq_ok {mem mem' : Bytes} {i : ℤ} {x : UInt8} :
    store mem i x = .ok mem' ↔ (0 ≤ i ∧ i < mem.length) ∧ mem.set i.toNat x = mem' := by
  unfold store
  split_ifs with h <;> simp [h]

theorem length_of_store {mem mem' : Bytes} {i : ℤ} {x : UInt8} (h : store mem i x = .ok mem') :
    mem'.length = mem.length := by
  rw [← (store_eq_ok.mp h).2, List.length_set]

/-- The loop ends behind the source, and only after whole blocks. -/
theorem decryptLoop_ok {aes : Bytes → Bytes} (haes : ∀ b, (aes b).length = 16) {src dst : Bytes}
    {len : ℕ} {out : ℕ × Bytes} (h : decryptLoop aes src dst len = .ok out) :
    src.length ≤ out.1 ∧ out.2.length = dst.length ∧ 16 ∣ src.length - len := by
  fun_induction decryptLoop aes src dst len with
  | case1 => simp at h
  | case2 => simp at h
  | case3 dst len hlt hsrc hdst block ih =>
    obtain ⟨hend, hlen, hdvd⟩ := ih h
    refine ⟨hend, hlen.trans ?_, by omega⟩
    simp [block, haes]
    omega
  | case4 dst len hlt =>
    obtain rfl := Except.ok.inj h
    exact ⟨Nat.le_of_not_lt hlt, rfl, by omega⟩

theorem length_of_clearLoop {mem mem' : Bytes} {n : ℤ} {turns : ℕ} {i : ℤ}
    (h : clearLoop mem n turns i = .ok mem') : mem'.length = mem.length := by
  induction turns generalizing i with
  | zero => rw [← Except.ok.inj h]
  | succ turns ih =>
    simp only [clearLoop, bind_eq_ok_iff] at h
    obtain ⟨last, -, x, -, hcases⟩ := h
    split at hcases
    · exact length_of_store hcases
    · exact ih hcases

theorem length_of_clearPadding {mem mem' : Bytes} {n : ℤ} (h : clearPadding mem n = .ok mem') :
    mem'.length = mem.length := by
  simp only [clearPadding, bind_eq_ok_iff] at h
  obtain ⟨last, -, second, -, hcases⟩ := h
  split at hcases
  · split at hcases
    · exact length_of_store hcases
    · rw [← Except.ok.inj hcases]
  · exact length_of_clearLoop hcases

/-! ## The terminator -/

/-- The store behind the loop is never inside of `dst`. -/
theorem decode_eq_nil_of_ok {ssl : OpenSsl} {accepts : Bytes → Bool} {data key s : Bytes}
    (hkey : key.length = 16) (h : aesEcbDecrypt ssl accepts [] data key = .ok s) :
    Base64.decode data = [] := by
  by_contra hne
  rw [aesEcbDecrypt, if_neg hne, if_neg (by simp [hkey])] at h
  simp only [bind_eq_ok_iff] at h
  obtain ⟨⟨len, dst⟩, hloop, dst', hclear, dst'', hstore, -⟩ := h
  have hend := decryptLoop_ok (ssl.length_aesDecrypt key) hloop
  have hlen := length_of_clearPadding hclear
  have hbound := (store_eq_ok.mp hstore).1.2
  simp at hend hlen hbound
  omega

/-- The cipher of `AES_Cipher.cpp` in the place of OpenSSL. -/
def builtinAes : OpenSsl where
  aesEncrypt := aes128EcbEncrypt
  aesDecrypt := aes128EcbDecrypt
  length_aesEncrypt := length_aes128EcbEncrypt
  length_aesDecrypt := length_aes128EcbDecrypt

/-- The printable characters of ASCII, on which the regular expression is known. -/
def printable (c : UInt8) : Bool := 32 ≤ c ∧ c ≤ 126

/-- No request that decodes to any byte at all is handled within the bounds of `dst`. -/
theorem aesEcbDecrypt_ok_iff (ssl : OpenSsl) (accepts : Bytes → Bool) {key : Bytes}
    (hkey : key.length = 16) (data : Bytes) :
    (∃ s, aesEcbDecrypt ssl accepts [] data key = .ok s) ↔
      (data.takeWhile Base64.isBase64).length < 2 := by
  rw [← Base64.decode_eq_nil_iff]
  constructor
  · rintro ⟨s, h⟩
    exact decode_eq_nil_of_ok hkey h
  · intro h
    exact ⟨[], by rw [aesEcbDecrypt, if_pos h]⟩

theorem aesEcbDecrypt_ok_refused : ∃ s, aesEcbDecrypt builtinAes (fun s => s.all printable) []
    (Http.ascii "!") (Http.ascii "0123456789abcdef") = .ok s :=
  (aesEcbDecrypt_ok_iff builtinAes _ (by decide) _).mpr (by decide)

theorem aesEcbDecrypt_overruns : ¬ ∃ s, aesEcbDecrypt builtinAes (fun s => s.all printable) []
    (Http.ascii "AAAAAAAAAAAAAAAAAAAAAA==") (Http.ascii "0123456789abcdef") = .ok s := by
  rintro ⟨s, h⟩
  exact absurd (decode_eq_nil_of_ok (by decide) h) (by decide +kernel)

end LibWebsocket.Crypto
