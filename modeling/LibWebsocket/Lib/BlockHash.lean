import LibWebsocket.Lib.ByteOrder
import LibWebsocket.Lib.Overwrite

/-! Hash functions that work through a message block by block. The message may come in pieces: a
context holds the state, the bytes that do not make up a block yet and the number of bits. -/
namespace LibWebsocket.Lib

section Absorb

variable {σ β : Type*} (n : ℕ) (f : σ → List β → σ)

/-- The state behind `k` blocks of length `n`, and the rest of the message. -/
def absorbBlocks : ℕ → σ → List β → σ × List β
  | 0, s, l => (s, l)
  | k + 1, s, l => absorbBlocks k (f s (l.take n)) (l.drop n)

/-- The state behind all whole blocks, and the rest of the message. -/
def absorb (s : σ) (l : List β) : σ × List β := absorbBlocks n f (l.length / n) s l

variable {n f} {s : σ} {b l m : List β}

theorem absorb_of_lt (h : l.length < n) : absorb n f s l = (s, l) := by
  rw [absorb, Nat.div_eq_of_lt h, absorbBlocks]

theorem absorb_block (hn : 0 < n) (hb : b.length = n) :
    absorb n f s (b ++ l) = absorb n f (f s b) l := by
  rw [absorb, List.length_append, hb, Nat.add_div_left _ hn, absorbBlocks, List.take_left' hb,
    List.drop_left' hb, absorb]

/-- Induction on the blocks of a message. -/
theorem block_induction {P : List β → Prop} (hn : 0 < n) (short : ∀ l, l.length < n → P l)
    (block : ∀ b l, b.length = n → P l → P (b ++ l)) (l : List β) : P l := by
  induction hlen : l.length using Nat.strong_induction_on generalizing l with
  | _ k ih =>
    by_cases h : l.length < n
    · exact short l h
    · rw [← List.take_append_drop n l]
      refine block _ _ (List.length_take_of_le (Nat.not_lt.mp h)) (ih _ ?_ _ rfl)
      rw [List.length_drop]
      omega

/-- What a message has been worked into can be continued. -/
theorem absorb_append (hn : 0 < n) (s : σ) (l m : List β) : absorb n f s (l ++ m) =
    absorb n f (absorb n f s l).1 ((absorb n f s l).2 ++ m) := by
  induction l using block_induction hn generalizing s with
  | short l h => rw [absorb_of_lt h]
  | block b l hb ih => rw [List.append_assoc, absorb_block hn hb, absorb_block hn hb, ih]

theorem length_absorb (hn : 0 < n) (s : σ) (l : List β) :
    (absorb n f s l).2.length = l.length % n := by
  induction l using block_induction hn generalizing s with
  | short l h => rw [absorb_of_lt h, Nat.mod_eq_of_lt h]
  | block b l hb ih => rw [absorb_block hn hb, ih, List.length_append, hb, Nat.add_mod_left]

end Absorb

/-! ### The words of a block -/

/-- The four bytes of word `i`. -/
def quadAt (block : Bytes) (i : ℕ) : Bytes :=
  [block.getD (4 * i) 0, block.getD (4 * i + 1) 0, block.getD (4 * i + 2) 0,
    block.getD (4 * i + 3) 0]

def leWord (block : Bytes) (i : ℕ) : UInt32 := .ofNat (leNat (quadAt block i))

def beWord (block : Bytes) (i : ℕ) : UInt32 := .ofNat (beNat (quadAt block i))

theorem testBit_leNat (bs : Bytes) (j : ℕ) :
    (leNat bs).testBit j = (bs.getD (j / 8) 0).toNat.testBit (j % 8) := by
  induction bs generalizing j with
  | nil => simp [leNat]
  | cons b bs ih =>
    have hb : b.toNat < 2 ^ 8 := b.toNat_lt
    have hsum : leNat (b :: bs) = 2 ^ 8 * leNat bs + b.toNat := by
      rw [leNat]
      omega
    rw [hsum, Nat.testBit_two_pow_mul_add _ hb]
    split_ifs with h
    · rw [Nat.div_eq_of_lt h, Nat.mod_eq_of_lt h, List.getD_cons_zero]
    · have hdiv : j / 8 = (j - 8) / 8 + 1 := by omega
      rw [ih, hdiv, List.getD_cons_succ, ← Nat.mod_eq_sub_mod (by omega)]

theorem or_mul_two_pow {x k : ℕ} (hx : x < 2 ^ k) (y : ℕ) : x ||| y * 2 ^ k = x + y * 2 ^ k := by
  rw [Nat.or_comm, ← Nat.shiftLeft_eq, ← Nat.shiftLeft_add_eq_or_of_lt hx, Nat.add_comm]

/-- Bytes that are shifted into their places have no bits in common, so that they add up. -/
theorem or_shiftLeft (a b c d : UInt8) :
    a.toUInt32 ||| (b.toUInt32 <<< 8) ||| (c.toUInt32 <<< 16) ||| (d.toUInt32 <<< 24) =
      .ofNat (leNat [a, b, c, d]) := by
  have ha := a.toNat_lt
  have hb := b.toNat_lt
  have hc := c.toNat_lt
  have hd := d.toNat_lt
  have hb' : (b.toUInt32 <<< 8).toNat = b.toNat * 2 ^ 8 := by
    simp [UInt32.toNat_shiftLeft, Nat.shiftLeft_eq]
    omega
  have hc' : (c.toUInt32 <<< 16).toNat = c.toNat * 2 ^ 16 := by
    simp [UInt32.toNat_shiftLeft, Nat.shiftLeft_eq]
    omega
  have hd' : (d.toUInt32 <<< 24).toNat = d.toNat * 2 ^ 24 := by
    simp [UInt32.toNat_shiftLeft, Nat.shiftLeft_eq]
    omega
  have h₁ : a.toNat ||| b.toNat * 2 ^ 8 = a.toNat + b.toNat * 2 ^ 8 := or_mul_two_pow ha _
  have h₂ : a.toNat + b.toNat * 2 ^ 8 ||| c.toNat * 2 ^ 16 =
      a.toNat + b.toNat * 2 ^ 8 + c.toNat * 2 ^ 16 := or_mul_two_pow (by omega) _
  have h₃ : a.toNat + b.toNat * 2 ^ 8 + c.toNat * 2 ^ 16 ||| d.toNat * 2 ^ 24 =
      a.toNat + b.toNat * 2 ^ 8 + c.toNat * 2 ^ 16 + d.toNat * 2 ^ 24 :=
    or_mul_two_pow (by omega) _
  apply UInt32.toNat_inj.mp
  rw [UInt32.toNat_or, UInt32.toNat_or, UInt32.toNat_or, UInt8.toNat_toUInt32, hb', hc', hd', h₁,
    h₂, h₃, UInt32.toNat_ofNat']
  simp only [leNat]
  omega

/-- The bytes of a word, by shifts. -/
theorem leBytes_toNat (w : UInt32) : leBytes 4 w.toNat = [(w &&& 0xFF).toUInt8,
    ((w >>> 8) &&& 0xFF).toUInt8, ((w >>> 16) &&& 0xFF).toUInt8, ((w >>> 24) &&& 0xFF).toUInt8] := by
  have hbyte (n : ℕ) (x : UInt32) (h : x.toNat = n) : (x &&& 0xFF).toUInt8 = UInt8.ofNat n := by
    apply UInt8.toNat_inj.mp
    rw [UInt32.toNat_toUInt8, UInt32.toNat_and, h, UInt8.toNat_ofNat']
    exact (congrArg (· % 256) (Nat.and_two_pow_sub_one_eq_mod n 8)).trans (Nat.mod_mod ..)
  have h₁ : (w >>> 8).toNat = w.toNat / 256 := by
    simp [UInt32.toNat_shiftRight, Nat.shiftRight_eq_div_pow]
  have h₂ : (w >>> 16).toNat = w.toNat / 256 / 256 := by
    simp [UInt32.toNat_shiftRight, Nat.shiftRight_eq_div_pow, Nat.div_div_eq_div_mul]
  have h₃ : (w >>> 24).toNat = w.toNat / 256 / 256 / 256 := by
    simp [UInt32.toNat_shiftRight, Nat.shiftRight_eq_div_pow, Nat.div_div_eq_div_mul]
  simp only [leBytes, hbyte _ _ rfl, h₁, h₂, h₃]

/-- The bytes of two words. -/
theorem leBytes_two_words (low high : UInt32) : leBytes 8 (low.toNat + 4294967296 * high.toNat) =
    leBytes 4 low.toNat ++ leBytes 4 high.toNat := by
  have hlow := low.toNat_lt
  have hhigh : (low.toNat + 4294967296 * high.toNat) / 256 ^ 4 = high.toNat := by omega
  have hbytes : leBytes 4 (low.toNat + 4294967296 * high.toNat) = leBytes 4 low.toNat := by
    refine leNat_inj (by simp) ?_
    rw [leNat_leBytes, leNat_leBytes]
    omega
  rw [leBytes_add 4 4, hhigh, hbytes]

/-! ### Contexts with blocks of 64 bytes -/

structure HashContext (σ : Type*) where
  /-- The number of bits, in two words. -/
  low : UInt32
  high : UInt32
  state : σ
  buffer : Bytes

namespace HashContext

variable {σ : Type*}

/-- Add the number of bits of `len` bytes. -/
def addCount (low high len : UInt32) : UInt32 × UInt32 :=
  (low + (len <<< 3),
    (if low + (len <<< 3) < len <<< 3 then high + 1 else high) + (len >>> 29))

theorem addCount_toNat (low high : UInt32) {len : ℕ} (hlen : len < 4294967296) :
    (addCount low high (.ofNat len)).1.toNat
      + 4294967296 * (addCount low high (.ofNat len)).2.toNat =
    (low.toNat + 4294967296 * high.toNat + 8 * len) % 18446744073709551616 := by
  have hof : (UInt32.ofNat len).toNat = len := UInt32.toNat_ofNat_of_lt' hlen
  have hshl : (UInt32.ofNat len <<< 3).toNat = 8 * len % 4294967296 := by
    rw [UInt32.toNat_shiftLeft, hof]
    simp [Nat.shiftLeft_eq, Nat.mul_comm]
  have hshr : (UInt32.ofNat len >>> 29).toNat = len / 536870912 := by
    rw [UInt32.toNat_shiftRight, hof]
    simp [Nat.shiftRight_eq_div_pow]
  have hlow := low.toNat_lt
  have hhigh := high.toNat_lt
  simp only [addCount]
  split_ifs with hcarry <;> rw [UInt32.lt_iff_toNat_lt] at hcarry <;>
    simp only [UInt32.toNat_add, hshl, hshr, UInt32.toNat_one] at hcarry ⊢ <;> omega

/-- How many bytes of the buffer are in use. -/
def index (c : HashContext σ) : ℕ := ((c.low >>> 3) &&& 63).toNat

/-- Complete the block of which `index` bytes are in the buffer, work through the whole blocks
behind it, and keep the rest in the buffer. -/
def fill (f : σ → Bytes → σ) (state : σ) (buffer : Bytes) (index : ℕ) (input : Bytes) : σ × Bytes :=
  if 64 - index ≤ input.length then
    let block := overwrite buffer index (input.take (64 - index))
    let r := absorb 64 f (f state block) (input.drop (64 - index))
    (r.1, overwrite block 0 r.2)
  else (state, overwrite buffer index input)

def update (f : σ → Bytes → σ) (c : HashContext σ) (input : Bytes) : HashContext σ where
  low := (addCount c.low c.high (.ofNat input.length)).1
  high := (addCount c.low c.high (.ofNat input.length)).2
  state := (fill f c.state c.buffer c.index input).1
  buffer := (fill f c.state c.buffer c.index input).2

/-- The context has worked through the message. -/
structure Absorbed (f : σ → Bytes → σ) (s : σ) (msg : Bytes) (c : HashContext σ) : Prop where
  state : c.state = (absorb 64 f s msg).1
  rest : c.buffer.take (msg.length % 64) = (absorb 64 f s msg).2
  length : c.buffer.length = 64
  count : c.low.toNat + 4294967296 * c.high.toNat = 8 * msg.length % 18446744073709551616

variable {f : σ → Bytes → σ} {s : σ} {msg buffer : Bytes} {c : HashContext σ} {i : ℕ}

theorem Absorbed.index_eq (h : Absorbed f s msg c) : c.index = msg.length % 64 := by
  have hcount := h.count
  have hlow := c.low.toNat_lt
  have hand : c.index = c.low.toNat / 8 % 64 := by
    rw [index, UInt32.toNat_and, UInt32.toNat_shiftRight, Nat.shiftRight_eq_div_pow]
    exact Nat.and_two_pow_sub_one_eq_mod (c.low.toNat / 8) 6
  rw [hand]
  omega

theorem fill_spec (f : σ → Bytes → σ) (s : σ) (input : Bytes) (hlen : buffer.length = 64)
    (hi : i < 64) :
    (fill f s buffer i input).1 = (absorb 64 f s (buffer.take i ++ input)).1 ∧
    (fill f s buffer i input).2.take ((i + input.length) % 64) =
      (absorb 64 f s (buffer.take i ++ input)).2 ∧
    (fill f s buffer i input).2.length = 64 := by
  have htake : (buffer.take i).length = i := List.length_take_of_le (by omega)
  rw [fill]
  split_ifs with h
  · have hpart : (input.take (64 - i)).length = 64 - i := List.length_take_of_le h
    have hblock : overwrite buffer i (input.take (64 - i)) =
        buffer.take i ++ input.take (64 - i) := by
      rw [overwrite, hpart, List.drop_of_length_le (by omega), List.append_nil]
    have hlength : (buffer.take i ++ input.take (64 - i)).length = 64 := by
      rw [List.length_append, htake, hpart]
      omega
    have habsorb : absorb 64 f s (buffer.take i ++ input) =
        absorb 64 f (f s (buffer.take i ++ input.take (64 - i))) (input.drop (64 - i)) := by
      rw [← absorb_block (by decide) hlength, List.append_assoc, List.take_append_drop]
    rw [hblock, habsorb]
    dsimp only
    have hrest : (absorb 64 f (f s (buffer.take i ++ input.take (64 - i)))
        (input.drop (64 - i))).2.length = (i + input.length) % 64 := by
      rw [length_absorb (by decide), List.length_drop]
      omega
    generalize absorb 64 f (f s (buffer.take i ++ input.take (64 - i))) (input.drop (64 - i)) = r
      at hrest ⊢
    refine ⟨rfl, ?_, ?_⟩
    · have := @take_overwrite _ (buffer.take i ++ input.take (64 - i)) r.2 0 (Nat.zero_le _)
      rwa [Nat.zero_add, List.take_zero, List.nil_append, hrest] at this
    · rw [length_overwrite (by omega), hlength]
  · have hlt : (buffer.take i ++ input).length < 64 := by
      rw [List.length_append, htake]
      omega
    rw [absorb_of_lt hlt, Nat.mod_eq_of_lt (by omega)]
    exact ⟨rfl, take_overwrite (by omega), by rw [length_overwrite (by omega), hlen]⟩

theorem Absorbed.update (h : Absorbed f s msg c) (input : Bytes)
    (hinput : input.length < 4294967296) :
    Absorbed f s (msg ++ input) (c.update f input) := by
  have hi : msg.length % 64 < 64 := Nat.mod_lt _ (by decide)
  obtain ⟨hstate, hrest, hlength⟩ := fill_spec f c.state input h.length hi
  have habsorb : absorb 64 f s (msg ++ input) =
      absorb 64 f c.state (c.buffer.take (msg.length % 64) ++ input) := by
    rw [absorb_append (by decide), h.state, h.rest]
  refine ⟨?_, ?_, ?_, ?_⟩
  · rw [habsorb, ← hstate, HashContext.update, h.index_eq]
  · rw [habsorb, ← hrest, HashContext.update, h.index_eq, List.length_append, Nat.mod_add_mod]
  · rw [← hlength, HashContext.update, h.index_eq]
  · have hcount := h.count
    rw [HashContext.update, addCount_toNat _ _ hinput, List.length_append]
    omega

theorem absorbed_create (f : σ → Bytes → σ) (s : σ) (h : buffer.length = 64) :
    Absorbed f s [] ⟨0, 0, s, buffer⟩ where
  state := by rw [absorb_of_lt (by decide)]
  rest := by rw [absorb_of_lt (by decide)]; rfl
  length := h
  count := rfl

/-- A context that is fed pieces has worked through the whole. -/
theorem Absorbed.pieces {pieces : List Bytes} (h : Absorbed f s msg c)
    (hpieces : ∀ piece ∈ pieces, piece.length < 4294967296) :
    Absorbed f s (msg ++ pieces.flatten) (pieces.foldl (HashContext.update f) c) := by
  induction pieces generalizing c msg with
  | nil => rwa [List.flatten_nil, List.append_nil]
  | cons piece pieces ih =>
    obtain ⟨hpiece, hpieces⟩ := List.forall_mem_cons.mp hpieces
    rw [List.flatten_cons, ← List.append_assoc, List.foldl_cons]
    exact ih (h.update piece hpiece) hpieces

/-- The zeros behind the first byte of the padding leave eight bytes of a block. -/
def padZeros (len : ℕ) : ℕ := (119 - len % 64) % 64

/-- The message with its padding, for which `bits` writes down the number of its bits. -/
def padded (bits : ℕ → Bytes) (msg : Bytes) : Bytes :=
  msg ++ (0x80 :: List.replicate (padZeros msg.length) 0)
    ++ bits (8 * msg.length % 18446744073709551616)

end HashContext

end LibWebsocket.Lib
