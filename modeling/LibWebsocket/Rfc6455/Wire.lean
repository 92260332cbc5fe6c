import LibWebsocket.Lib.Mask
import Mathlib.Data.Fin.VecNotation
import Mathlib.Data.Fintype.Basic
import Mathlib.Data.List.OfFn

/-! The frame format of RFC 6455: two bytes of flags, an optional extended length in
network byte order, an optional masking key and the payload. `decode?` is a reference
decoder that reads exactly this format. -/
namespace LibWebsocket.Rfc6455
open Lib

abbrev Key := Fin 4 → UInt8

-- Named, so that the definitions below do not each carry a proof.
instance neZeroKey : NeZero 4 := ⟨by decide⟩

instance neZeroOpcode : NeZero 16 := ⟨by decide⟩

/-- The three ways to write a payload length. -/
inductive LenForm
  | bits7 | bits16 | bits64
deriving DecidableEq, Repr

namespace LenForm

def Fits : LenForm → ℕ → Prop
  | bits7, n => n < 126
  | bits16, n => n < 2 ^ 16
  | bits64, n => n < 2 ^ 63

instance (form : LenForm) (n : ℕ) : Decidable (form.Fits n) := by
  cases form <;> exact Nat.decLt _ _

/-- The seven-bit length field of the second byte. -/
def code : LenForm → ℕ → ℕ
  | bits7, n => n
  | bits16, _ => 126
  | bits64, _ => 127

def extension : LenForm → ℕ → Bytes
  | bits7, _ => []
  | bits16, n => beBytes 2 n
  | bits64, n => beBytes 8 n

/-- The only form a conforming sender may use for a length. -/
def shortest (n : ℕ) : LenForm :=
  if n < 126 then bits7 else if n < 2 ^ 16 then bits16 else bits64

theorem shortest_fits {n : ℕ} (hn : n < 2 ^ 63) : (shortest n).Fits n := by
  unfold shortest
  split_ifs with h7 h16
  · exact h7
  · exact h16
  · exact hn

theorem fits_one (form : LenForm) : form.Fits 1 := by
  cases form <;> decide

theorem code_lt {form : LenForm} {n : ℕ} (h : form.Fits n) : form.code n < 128 := by
  cases form <;> simp only [Fits, code] at * <;> omega

end LenForm

structure Frame where
  fin : Bool
  opcode : Fin 16
  key : Option Key
  payload : Bytes
deriving DecidableEq

/-- XOR the payload with the key if there is one; this both masks and unmasks. -/
def applyKey (key : Option Key) (bs : Bytes) : Bytes := key.elim bs fun k => maskFrom k 0 bs

@[simp] theorem length_applyKey (key : Option Key) (bs : Bytes) :
    (applyKey key bs).length = bs.length := by
  cases key <;> simp [applyKey]

@[simp] theorem applyKey_applyKey (key : Option Key) (bs : Bytes) :
    applyKey key (applyKey key bs) = bs := by
  cases key <;> simp [applyKey]

def keyBytes (key : Option Key) : Bytes := key.elim [] List.ofFn

/-- A frame and the form its length is written in. -/
structure WireFrame extends Frame where
  form : LenForm
  fits : form.Fits payload.length

namespace WireFrame

def head0 (f : WireFrame) : UInt8 := UInt8.ofNat ((if f.fin then 128 else 0) + f.opcode)

def head1 (f : WireFrame) : UInt8 :=
  UInt8.ofNat ((if f.key.isSome then 128 else 0) + f.form.code f.payload.length)

def wire (f : WireFrame) : Bytes :=
  f.head0 :: f.head1 :: (f.form.extension f.payload.length ++ keyBytes f.key ++
    applyKey f.key f.payload)

theorem toNat_head0 (f : WireFrame) :
    f.head0.toNat = (if f.fin then 128 else 0) + f.opcode := by
  have := f.opcode.isLt
  rw [head0, UInt8.toNat_ofNat']
  split_ifs <;> omega

theorem toNat_head1 (f : WireFrame) :
    f.head1.toNat = (if f.key.isSome then 128 else 0) + f.form.code f.payload.length := by
  have := LenForm.code_lt f.fits
  rw [head1, UInt8.toNat_ofNat']
  split_ifs <;> omega

theorem head0_reserved (f : WireFrame) : f.head0.toNat / 16 % 8 = 0 := by
  have := f.opcode.isLt
  rw [toNat_head0]
  split_ifs <;> omega

theorem head0_fin (f : WireFrame) : decide (128 ≤ f.head0.toNat) = f.fin := by
  have := f.opcode.isLt
  rw [toNat_head0]
  cases f.fin <;> simp
  omega

theorem head0_opcode (f : WireFrame) : Fin.ofNat 16 f.head0.toNat = f.opcode := by
  have := f.opcode.isLt
  apply Fin.ext
  rw [Fin.val_ofNat, toNat_head0]
  split_ifs <;> omega

theorem head1_mask (f : WireFrame) : decide (128 ≤ f.head1.toNat) = f.key.isSome := by
  have := LenForm.code_lt f.fits
  rw [toNat_head1]
  cases f.key.isSome <;> simp
  omega

theorem head1_length (f : WireFrame) :
    f.head1.toNat % 128 = f.form.code f.payload.length := by
  have := LenForm.code_lt f.fits
  rw [toNat_head1]
  split_ifs <;> omega

/-- The frame of a server, which does not mask and uses the shortest form. -/
def unmasked (fin : Bool) (opcode : Fin 16) (payload : Bytes) (h : payload.length < 2 ^ 63) :
    WireFrame :=
  ⟨⟨fin, opcode, none, payload⟩, .shortest payload.length, LenForm.shortest_fits h⟩

end WireFrame

/-- The bytes of frames sent one after the other. -/
def stream (fs : List WireFrame) : Bytes := fs.flatMap WireFrame.wire

@[simp] theorem stream_nil : stream [] = [] := rfl

theorem stream_cons (f : WireFrame) (fs : List WireFrame) :
    stream (f :: fs) = f.wire ++ stream fs := rfl

theorem stream_append (fs gs : List WireFrame) : stream (fs ++ gs) = stream fs ++ stream gs :=
  List.flatMap_append

/-- The extended length announced by a seven-bit length field, and what follows it. -/
def decodeLength? (c : ℕ) (bs : Bytes) : Option (ℕ × Bytes) :=
  if c < 126 then some (c, bs)
  else if c = 126 then if 2 ≤ bs.length then some (beNat (bs.take 2), bs.drop 2) else none
  else if 8 ≤ bs.length ∧ beNat (bs.take 8) < 2 ^ 63 then some (beNat (bs.take 8), bs.drop 8)
  else none

def decodeKey? (masked : Bool) : Bytes → Option (Option Key × Bytes)
  | bs => if masked then
      if 4 ≤ bs.length then some (some fun i => bs.getD i 0, bs.drop 4) else none
    else some (none, bs)

/-- Read one frame with zero reserved bits and return the bytes after it. -/
def decode? : Bytes → Option (Frame × Bytes)
  | b0 :: b1 :: bs => do
    if b0.toNat / 16 % 8 ≠ 0 then none
    let (len, bs) ← decodeLength? (b1.toNat % 128) bs
    let (key, bs) ← decodeKey? (decide (128 ≤ b1.toNat)) bs
    if bs.length < len then none
    some (⟨decide (128 ≤ b0.toNat), Fin.ofNat 16 b0.toNat, key, applyKey key (bs.take len)⟩,
      bs.drop len)
  | _ => none

theorem decodeLength?_extension {form : LenForm} {n : ℕ} (h : form.Fits n) (bs : Bytes) :
    decodeLength? (form.code n) (form.extension n ++ bs) = some (n, bs) := by
  cases form with
  | bits7 => simp [decodeLength?, LenForm.code, LenForm.extension, show n < 126 from h]
  | bits16 =>
    have hn : n % 256 ^ 2 = n := Nat.mod_eq_of_lt h
    have ht : (beBytes 2 n ++ bs).take 2 = beBytes 2 n := List.take_left' (by simp)
    have hd : (beBytes 2 n ++ bs).drop 2 = bs := List.drop_left' (by simp)
    simp only [decodeLength?, LenForm.code, LenForm.extension, ht, hd, beNat_beBytes, hn]
    simp
  | bits64 =>
    have hn : n % 256 ^ 8 = n := Nat.mod_eq_of_lt (by simp only [LenForm.Fits] at h; omega)
    have ht : (beBytes 8 n ++ bs).take 8 = beBytes 8 n := List.take_left' (by simp)
    have hd : (beBytes 8 n ++ bs).drop 8 = bs := List.drop_left' (by simp)
    have h63 : n < 2 ^ 63 := h
    simp only [decodeLength?, LenForm.code, LenForm.extension, ht, hd, beNat_beBytes, hn, h63]
    simp

theorem getD_keyBytes (k : Key) (bs : Bytes) :
    (fun i : Fin 4 => (keyBytes (some k) ++ bs).getD i 0) = k := by
  funext i
  rw [List.getD_eq_getElem?_getD, keyBytes, Option.elim_some,
    List.getElem?_append_left (by simp), List.getElem?_ofFn]
  simp

theorem decodeKey?_keyBytes (key : Option Key) (bs : Bytes) :
    decodeKey? key.isSome (keyBytes key ++ bs) = some (key, bs) := by
  cases key with
  | none => simp [decodeKey?, keyBytes]
  | some k =>
    have hl : (keyBytes (some k)).length = 4 := by simp [keyBytes]
    have hd : (keyBytes (some k) ++ bs).drop 4 = bs := List.drop_left' hl
    simp only [decodeKey?, Option.isSome_some, if_true, hd, getD_keyBytes]
    simp [hl]

/-- The reference decoder inverts the format and takes nothing of what follows. -/
theorem decode?_wire (f : WireFrame) (bs : Bytes) :
    decode? (f.wire ++ bs) = some (f.toFrame, bs) := by
  have ht : (applyKey f.key f.payload ++ bs).take f.payload.length = applyKey f.key f.payload :=
    List.take_left' (by simp)
  have hd : (applyKey f.key f.payload ++ bs).drop f.payload.length = bs :=
    List.drop_left' (by simp)
  simp only [WireFrame.wire, List.cons_append, List.append_assoc, decode?, f.head0_reserved,
    f.head1_length, f.head1_mask, f.head0_fin, f.head0_opcode, decodeLength?_extension f.fits,
    decodeKey?_keyBytes, Option.bind_eq_bind, Option.bind_some, ht, hd, applyKey_applyKey]
  simp

end LibWebsocket.Rfc6455
