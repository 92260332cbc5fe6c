import LibWebsocket.Lib.BlockHash
import Mathlib.Logic.Function.Basic
import Mathlib.Tactic.IntervalCases

/-! The SHA-1 of `sha1.cc`: its unrolled rounds with a schedule of 16 words that is overwritten in
place are the loop of FIPS 180-1, and a message that is fed in pieces has the digest of the
whole. -/
namespace LibWebsocket.Crypto.Sha1

open LibWebsocket.Lib

/-- `state`, and the variables `a` to `e`. -/
structure Words where
  a : UInt32
  b : UInt32
  c : UInt32
  d : UInt32
  e : UInt32
deriving DecidableEq, Repr

inductive Var
  | a | b | c | d | e
deriving DecidableEq, Repr

namespace Words

def get (w : Words) : Var → UInt32
  | .a => w.a
  | .b => w.b
  | .c => w.c
  | .d => w.d
  | .e => w.e

def set (w : Words) (v : UInt32) : Var → Words
  | .a => { w with a := v }
  | .b => { w with b := v }
  | .c => { w with c := v }
  | .d => { w with d := v }
  | .e => { w with e := v }

def add (w w' : Words) : Words :=
  ⟨w.a + w'.a, w.b + w'.b, w.c + w'.c, w.d + w'.d, w.e + w'.e⟩

def toList (w : Words) : List UInt32 := [w.a, w.b, w.c, w.d, w.e]

end Words

/-! ### The source -/

def rol (value bits : UInt32) : UInt32 := (value <<< bits) ||| (value >>> (32 - bits))

/-- The new value of `block->l[i]`, on a little-endian host. -/
def blk0 (l : ℕ → UInt32) (i : ℕ) : UInt32 :=
  (rol (l i) 24 &&& 0xFF00FF00) ||| (rol (l i) 8 &&& 0x00FF00FF)

/-- The new value of `block->l[i & 15]`. -/
def blk (l : ℕ → UInt32) (i : ℕ) : UInt32 :=
  rol (l ((i + 13) % 16) ^^^ l ((i + 8) % 16) ^^^ l ((i + 2) % 16) ^^^ l (i % 16)) 1

inductive Macro
  | R0 | R1 | R2 | R3 | R4
deriving DecidableEq, Repr

def Macro.fn (w x y : UInt32) : Macro → UInt32
  | .R0 | .R1 => (w &&& (x ^^^ y)) ^^^ y
  | .R2 | .R4 => w ^^^ x ^^^ y
  | .R3 => ((w ||| x) &&& y) ||| (w &&& x)

def Macro.k : Macro → UInt32
  | .R0 | .R1 => 0x5A827999
  | .R2 => 0x6ED9EBA1
  | .R3 => 0x8F1BBCDC
  | .R4 => 0xCA62C1D6

def Macro.blk : Macro → (ℕ → UInt32) → ℕ → UInt32
  | .R0 => blk0
  | _ => Sha1.blk

/-- One use of a macro: `z += f(w, x, y) + blk(i) + k + rol(v, 5); w = rol(w, 30)`. -/
structure Line where
  step : Macro
  v : Var
  w : Var
  x : Var
  y : Var
  z : Var
  i : ℕ
deriving DecidableEq, Repr

/-- The variables and the words of the block. -/
def Line.exec (s : Words × (ℕ → UInt32)) (l : Line) : Words × (ℕ → UInt32) :=
  let value := l.step.blk s.2 l.i
  let words := s.1.set (s.1.get l.z + (l.step.fn (s.1.get l.w) (s.1.get l.x) (s.1.get l.y) + value
    + l.step.k + rol (s.1.get l.v) 5)) l.z
  (words.set (rol (words.get l.w) 30) l.w, Function.update s.2 (l.i % 16) value)

def lines : List Line := [
  ⟨.R0, .a, .b, .c, .d, .e, 0⟩, ⟨.R0, .e, .a, .b, .c, .d, 1⟩, ⟨.R0, .d, .e, .a, .b, .c, 2⟩,
  ⟨.R0, .c, .d, .e, .a, .b, 3⟩, ⟨.R0, .b, .c, .d, .e, .a, 4⟩, ⟨.R0, .a, .b, .c, .d, .e, 5⟩,
  ⟨.R0, .e, .a, .b, .c, .d, 6⟩, ⟨.R0, .d, .e, .a, .b, .c, 7⟩, ⟨.R0, .c, .d, .e, .a, .b, 8⟩,
  ⟨.R0, .b, .c, .d, .e, .a, 9⟩, ⟨.R0, .a, .b, .c, .d, .e, 10⟩, ⟨.R0, .e, .a, .b, .c, .d, 11⟩,
  ⟨.R0, .d, .e, .a, .b, .c, 12⟩, ⟨.R0, .c, .d, .e, .a, .b, 13⟩, ⟨.R0, .b, .c, .d, .e, .a, 14⟩,
  ⟨.R0, .a, .b, .c, .d, .e, 15⟩, ⟨.R1, .e, .a, .b, .c, .d, 16⟩, ⟨.R1, .d, .e, .a, .b, .c, 17⟩,
  ⟨.R1, .c, .d, .e, .a, .b, 18⟩, ⟨.R1, .b, .c, .d, .e, .a, 19⟩, ⟨.R2, .a, .b, .c, .d, .e, 20⟩,
  ⟨.R2, .e, .a, .b, .c, .d, 21⟩, ⟨.R2, .d, .e, .a, .b, .c, 22⟩, ⟨.R2, .c, .d, .e, .a, .b, 23⟩,
  ⟨.R2, .b, .c, .d, .e, .a, 24⟩, ⟨.R2, .a, .b, .c, .d, .e, 25⟩, ⟨.R2, .e, .a, .b, .c, .d, 26⟩,
  ⟨.R2, .d, .e, .a, .b, .c, 27⟩, ⟨.R2, .c, .d, .e, .a, .b, 28⟩, ⟨.R2, .b, .c, .d, .e, .a, 29⟩,
  ⟨.R2, .a, .b, .c, .d, .e, 30⟩, ⟨.R2, .e, .a, .b, .c, .d, 31⟩, ⟨.R2, .d, .e, .a, .b, .c, 32⟩,
  ⟨.R2, .c, .d, .e, .a, .b, 33⟩, ⟨.R2, .b, .c, .d, .e, .a, 34⟩, ⟨.R2, .a, .b, .c, .d, .e, 35⟩,
  ⟨.R2, .e, .a, .b, .c, .d, 36⟩, ⟨.R2, .d, .e, .a, .b, .c, 37⟩, ⟨.R2, .c, .d, .e, .a, .b, 38⟩,
  ⟨.R2, .b, .c, .d, .e, .a, 39⟩, ⟨.R3, .a, .b, .c, .d, .e, 40⟩, ⟨.R3, .e, .a, .b, .c, .d, 41⟩,
  ⟨.R3, .d, .e, .a, .b, .c, 42⟩, ⟨.R3, .c, .d, .e, .a, .b, 43⟩, ⟨.R3, .b, .c, .d, .e, .a, 44⟩,
  ⟨.R3, .a, .b, .c, .d, .e, 45⟩, ⟨.R3, .e, .a, .b, .c, .d, 46⟩, ⟨.R3, .d, .e, .a, .b, .c, 47⟩,
  ⟨.R3, .c, .d, .e, .a, .b, 48⟩, ⟨.R3, .b, .c, .d, .e, .a, 49⟩, ⟨.R3, .a, .b, .c, .d, .e, 50⟩,
  ⟨.R3, .e, .a, .b, .c, .d, 51⟩, ⟨.R3, .d, .e, .a, .b, .c, 52⟩, ⟨.R3, .c, .d, .e, .a, .b, 53⟩,
  ⟨.R3, .b, .c, .d, .e, .a, 54⟩, ⟨.R3, .a, .b, .c, .d, .e, 55⟩, ⟨.R3, .e, .a, .b, .c, .d, 56⟩,
  ⟨.R3, .d, .e, .a, .b, .c, 57⟩, ⟨.R3, .c, .d, .e, .a, .b, 58⟩, ⟨.R3, .b, .c, .d, .e, .a, 59⟩,
  ⟨.R4, .a, .b, .c, .d, .e, 60⟩, ⟨.R4, .e, .a, .b, .c, .d, 61⟩, ⟨.R4, .d, .e, .a, .b, .c, 62⟩,
  ⟨.R4, .c, .d, .e, .a, .b, 63⟩, ⟨.R4, .b, .c, .d, .e, .a, 64⟩, ⟨.R4, .a, .b, .c, .d, .e, 65⟩,
  ⟨.R4, .e, .a, .b, .c, .d, 66⟩, ⟨.R4, .d, .e, .a, .b, .c, 67⟩, ⟨.R4, .c, .d, .e, .a, .b, 68⟩,
  ⟨.R4, .b, .c, .d, .e, .a, 69⟩, ⟨.R4, .a, .b, .c, .d, .e, 70⟩, ⟨.R4, .e, .a, .b, .c, .d, 71⟩,
  ⟨.R4, .d, .e, .a, .b, .c, 72⟩, ⟨.R4, .c, .d, .e, .a, .b, 73⟩, ⟨.R4, .b, .c, .d, .e, .a, 74⟩,
  ⟨.R4, .a, .b, .c, .d, .e, 75⟩, ⟨.R4, .e, .a, .b, .c, .d, 76⟩, ⟨.R4, .d, .e, .a, .b, .c, 77⟩,
  ⟨.R4, .c, .d, .e, .a, .b, 78⟩, ⟨.R4, .b, .c, .d, .e, .a, 79⟩
]

/-- The words of the block are loaded in the order of the host. -/
def SHA1Transform (state : Words) (buffer : Bytes) : Words :=
  state.add (lines.foldl Line.exec (state, leWord buffer)).1

/-- `SHA1_CTX`: `count[0]` and `count[1]` are `low` and `high`. -/
abbrev Context := HashContext Words

def SHA1Init (c : Context) : Context :=
  { c with low := 0, high := 0,
           state := ⟨0x67452301, 0xEFCDAB89, 0x98BADCFE, 0x10325476, 0xC3D2E1F0⟩ }

/-- For data of which the length and `j + len` are an `unsigned int`. -/
def SHA1Update (c : Context) (data : Bytes) : Context :=
  let len := UInt32.ofNat data.length
  let low := c.low + (len <<< 3)
  let high := (if low < c.low then c.high + 1 else c.high) + (len >>> 29)
  let j := ((c.low >>> 3) &&& 63).toNat
  if 63 < j + data.length then
    let buffer := overwrite c.buffer j (data.take (64 - j))
    let r := absorb 64 SHA1Transform (SHA1Transform c.state buffer) (data.drop (64 - j))
    ⟨low, high, r.1, overwrite buffer 0 r.2⟩
  else ⟨low, high, c.state, overwrite c.buffer j data⟩

/-- The bytes of a word, most significant first. -/
def bytesOf (w : UInt32) : Bytes :=
  [((w >>> 24) &&& 255).toUInt8, ((w >>> 16) &&& 255).toUInt8, ((w >>> 8) &&& 255).toUInt8,
    (w &&& 255).toUInt8]

/-- The loop that pads with zeros, for at most `n` turns. -/
def padLoop : ℕ → Context → Option Context
  | 0, _ => none
  | n + 1, c => if c.low &&& 504 = 448 then some c else padLoop n (SHA1Update c [0])

def SHA1Final (turns : ℕ) (c : Context) : Option Bytes :=
  let finalcount := bytesOf c.high ++ bytesOf c.low
  (padLoop turns (SHA1Update c [0x80])).map fun c =>
    (SHA1Update c finalcount).state.toList.flatMap bytesOf

/-! ### The rounds -/

/-- The schedule of FIPS 180-1. -/
def schedule (block : Bytes) (t : ℕ) : UInt32 :=
  if t < 16 then beWord block t
  else rol (schedule block (t - 3) ^^^ schedule block (t - 8) ^^^ schedule block (t - 14)
    ^^^ schedule block (t - 16)) 1
termination_by t

def roundFn (t : ℕ) (b c d : UInt32) : UInt32 :=
  match t / 20 with
  | 0 => (b &&& c) ||| (~~~b &&& d)
  | 1 => b ^^^ c ^^^ d
  | 2 => (b &&& c) ||| (b &&& d) ||| (c &&& d)
  | _ => b ^^^ c ^^^ d

def roundConstant (t : ℕ) : UInt32 :=
  match t / 20 with
  | 0 => 0x5A827999
  | 1 => 0x6ED9EBA1
  | 2 => 0x8F1BBCDC
  | _ => 0xCA62C1D6

/-- A round of the loop, behind which the variables are renamed. -/
def round (W : ℕ → UInt32) (w : Words) (t : ℕ) : Words where
  a := rol w.a 5 + roundFn t w.b w.c w.d + w.e + W t + roundConstant t
  b := w.a
  c := rol w.b 30
  d := w.c
  e := w.d

/-- What FIPS 180-1 makes of a state and a block. -/
def compress (state : Words) (block : Bytes) : Words :=
  state.add ((List.range 80).foldl (round (schedule block)) state)

/-- Which variables the macro has for `v` to `z` in line `i`. -/
def places (i : ℕ) : Var × Var × Var × Var × Var :=
  match i % 5 with
  | 0 => (.a, .b, .c, .d, .e)
  | 1 => (.e, .a, .b, .c, .d)
  | 2 => (.d, .e, .a, .b, .c)
  | 3 => (.c, .d, .e, .a, .b)
  | _ => (.b, .c, .d, .e, .a)

def stepAt (i : ℕ) : Macro :=
  if i < 16 then .R0
  else
    match i / 20 with
    | 0 => .R1
    | 1 => .R2
    | 2 => .R3
    | _ => .R4

def line (i : ℕ) : Line :=
  ⟨stepAt i, (places i).1, (places i).2.1, (places i).2.2.1, (places i).2.2.2.1,
    (places i).2.2.2.2, i⟩

theorem lines_eq : lines = (List.range 80).map line := by decide +kernel

/-- The bytes of a word in the opposite order. -/
theorem getLsbD_swap (x : BitVec 32) {j : ℕ} (hj : j < 32) :
    (((x <<< 24 ||| x >>> 8) &&& 0xFF00FF00#32) |||
      ((x <<< 8 ||| x >>> 24) &&& 0x00FF00FF#32)).getLsbD j =
    x.getLsbD (8 * (3 - j / 8) + j % 8) := by
  simp only [BitVec.getLsbD_or, BitVec.getLsbD_and, BitVec.getLsbD_shiftLeft,
    BitVec.getLsbD_ushiftRight]
  interval_cases j <;> simp

theorem swap_eq (a b c d : UInt8) :
    (rol (.ofNat (leNat [a, b, c, d])) 24 &&& 0xFF00FF00) |||
      (rol (.ofNat (leNat [a, b, c, d])) 8 &&& 0x00FF00FF) = .ofNat (beNat [a, b, c, d]) := by
  apply UInt32.toBitVec_inj.mp
  refine BitVec.eq_of_getLsbD_eq fun j hj => ?_
  refine (getLsbD_swap _ hj).trans ?_
  have hbyte : [a, b, c, d].getD (3 - j / 8) 0 = [d, c, b, a].getD (j / 8) 0 := by
    have : j / 8 < 4 := by omega
    interval_cases j / 8 <;> rfl
  have hdiv : (8 * (3 - j / 8) + j % 8) / 8 = 3 - j / 8 := by omega
  have hmod : (8 * (3 - j / 8) + j % 8) % 8 = j % 8 := by omega
  have hlt : 8 * (3 - j / 8) + j % 8 < 32 := by omega
  rw [UInt32.toBitVec_ofNat', UInt32.toBitVec_ofNat', BitVec.getLsbD_ofNat, BitVec.getLsbD_ofNat,
    decide_eq_true hlt, decide_eq_true hj, testBit_leNat, hdiv, hmod, hbyte, beNat, testBit_leNat]
  rfl

theorem schedule_of_lt (block : Bytes) {t : ℕ} (h : t < 16) : schedule block t = beWord block t := by
  rw [schedule, if_pos h]

theorem schedule_of_le (block : Bytes) {t : ℕ} (h : 16 ≤ t) :
    schedule block t = rol (schedule block (t - 3) ^^^ schedule block (t - 8)
      ^^^ schedule block (t - 14) ^^^ schedule block (t - 16)) 1 := by
  rw [schedule, if_neg (by omega)]

/-- The words of the block before line `t`: those that the lines have come to are the latest words
of the schedule, and the others are as they were loaded. -/
def window (block : Bytes) (t i : ℕ) : UInt32 :=
  if t ≤ i then leWord block i else schedule block (i + 16 * ((t - 1 - i) / 16))

/-- The word `k` places back is still in the window. -/
theorem window_back (block : Bytes) {t k : ℕ} (hk : 0 < k) (hk' : k ≤ 16) (ht : 16 ≤ t) :
    window block t ((t + 16 - k) % 16) = schedule block (t - k) := by
  rw [window, if_neg (by omega)]
  congr 1
  omega

theorem blk_eq (block : Bytes) (t : ℕ) {l : ℕ → UInt32} (hl : ∀ i < 16, l i = window block t i) :
    (stepAt t).blk l t = schedule block t := by
  rw [stepAt]
  split_ifs with ht
  · rw [schedule_of_lt block ht, Macro.blk, blk0, hl t ht, window, if_pos le_rfl]
    exact swap_eq ..
  · have h16 := Nat.not_lt.mp ht
    have hback {k : ℕ} (hk : 0 < k) (hk' : k ≤ 16) : l ((t + 16 - k) % 16) = schedule block (t - k) :=
      (hl _ (Nat.mod_lt _ (by decide))).trans (window_back block hk hk' h16)
    have h₃ : l ((t + 13) % 16) = _ := hback (k := 3) (by decide) (by decide)
    have h₈ : l ((t + 8) % 16) = _ := hback (k := 8) (by decide) (by decide)
    have h₁₄ : l ((t + 2) % 16) = _ := hback (k := 14) (by decide) (by decide)
    have h₁₆ : l (t % 16) = _ := hback (k := 16) (by decide) (by decide)
    have hblk : blk l t = schedule block t := by
      rw [schedule_of_le block h16, blk, h₃, h₈, h₁₄, h₁₆]
    split <;> exact hblk

theorem window_succ (block : Bytes) (t : ℕ) {l : ℕ → UInt32} (hl : ∀ i < 16, l i = window block t i) :
    ∀ i < 16, Function.update l (t % 16) (schedule block t) i = window block (t + 1) i := by
  intro i hi
  by_cases h : i = t % 16
  · subst h
    rw [Function.update_self, window, if_neg (by omega)]
    congr 1
    omega
  · rw [Function.update_of_ne h, hl i hi, window, window]
    split_ifs with h₁ h₂
    · rfl
    · omega
    · omega
    · congr 3
      omega

theorem choose_eq (b c d : UInt32) : (b &&& (c ^^^ d)) ^^^ d = (b &&& c) ||| (~~~b &&& d) := by
  apply UInt32.toBitVec_inj.mp
  refine BitVec.eq_of_getElem_eq fun j hj => ?_
  simp only [UInt32.toBitVec_xor, UInt32.toBitVec_and, UInt32.toBitVec_or, UInt32.toBitVec_not,
    BitVec.getElem_xor, BitVec.getElem_and, BitVec.getElem_or, BitVec.getElem_not]
  cases b.toBitVec[j] <;> cases c.toBitVec[j] <;> cases d.toBitVec[j] <;> rfl

theorem majority_eq (b c d : UInt32) :
    ((b ||| c) &&& d) ||| (b &&& c) = (b &&& c) ||| (b &&& d) ||| (c &&& d) := by
  apply UInt32.toBitVec_inj.mp
  refine BitVec.eq_of_getElem_eq fun j hj => ?_
  simp only [UInt32.toBitVec_and, UInt32.toBitVec_or, BitVec.getElem_and, BitVec.getElem_or]
  cases b.toBitVec[j] <;> cases c.toBitVec[j] <;> cases d.toBitVec[j] <;> rfl

theorem fn_eq (t : ℕ) (b c d : UInt32) : (stepAt t).fn b c d = roundFn t b c d := by
  rw [stepAt, roundFn]
  split_ifs with ht
  · rw [Nat.div_eq_of_lt (by omega : t < 20)]
    exact choose_eq b c d
  · match t / 20 with
    | 0 => exact choose_eq b c d
    | 1 => rfl
    | 2 => exact majority_eq b c d
    | _ + 3 => rfl

theorem k_eq (t : ℕ) : (stepAt t).k = roundConstant t := by
  rw [stepAt, roundConstant]
  split_ifs with ht
  · rw [Nat.div_eq_of_lt (by omega : t < 20)]
    rfl
  · match t / 20 with
    | 0 | 1 | 2 | _ + 3 => rfl

/-- The words of round `i`, when the variables are not renamed. -/
def renamed (i : ℕ) (w : Words) : Words :=
  ⟨w.get (places i).1, w.get (places i).2.1, w.get (places i).2.2.1, w.get (places i).2.2.2.1,
    w.get (places i).2.2.2.2⟩

theorem renamed_exec (block : Bytes) (w : Words) (t : ℕ) {l : ℕ → UInt32}
    (hl : ∀ i < 16, l i = window block t i) :
    renamed (t + 1) ((line t).exec (w, l)).1 = round (schedule block) (renamed t w) t := by
  have hvalue (z f y k v : UInt32) : z + (f + y + k + v) = v + f + z + y + k := by ac_rfl
  have hcases : t % 5 = 0 ∧ (t + 1) % 5 = 1 ∨ t % 5 = 1 ∧ (t + 1) % 5 = 2 ∨
      t % 5 = 2 ∧ (t + 1) % 5 = 3 ∨ t % 5 = 3 ∧ (t + 1) % 5 = 4 ∨ t % 5 = 4 ∧ (t + 1) % 5 = 0 := by
    omega
  rcases hcases with ⟨h, h'⟩ | ⟨h, h'⟩ | ⟨h, h'⟩ | ⟨h, h'⟩ | ⟨h, h'⟩ <;>
    simp only [renamed, places, h, h', Line.exec, line, round, Words.get, Words.set, blk_eq block t hl,
      fn_eq, k_eq, hvalue]

theorem foldl_exec (block : Bytes) (w : Words) (n : ℕ) :
    renamed n (((List.range n).map line).foldl Line.exec (w, leWord block)).1 =
      (List.range n).foldl (round (schedule block)) w ∧
    ∀ i < 16, (((List.range n).map line).foldl Line.exec (w, leWord block)).2 i =
      window block n i := by
  induction n with
  | zero => exact ⟨rfl, fun i _ => (if_pos (Nat.zero_le i)).symm⟩
  | succ n ih =>
    obtain ⟨hwords, hblock⟩ := ih
    rw [List.range_succ, List.map_append, List.foldl_append, List.foldl_append, ← hwords]
    generalize ((List.range n).map line).foldl Line.exec (w, leWord block) = s at hblock
    refine ⟨renamed_exec block s.1 n hblock, ?_⟩
    have := window_succ block n hblock
    rw [← blk_eq block n hblock] at this
    exact this

theorem renamed_all (w : Words) : renamed 80 w = w := rfl

/-- The unrolled lines do what FIPS 180-1 says. -/
theorem SHA1Transform_eq : SHA1Transform = compress := by
  funext state block
  rw [SHA1Transform, compress, lines_eq, ← (foldl_exec block state 80).1, renamed_all]

/-! ### The digest -/

/-- A sum has wrapped if it is smaller than one of the two numbers, whichever is compared. -/
theorem add_lt_left_iff (x y : UInt32) : x + y < x ↔ x + y < y := by
  have hx := x.toNat_lt
  have hy := y.toNat_lt
  rw [UInt32.lt_iff_toNat_lt, UInt32.lt_iff_toNat_lt, UInt32.toNat_add]
  omega

theorem SHA1Update_eq : SHA1Update = HashContext.update compress := by
  funext c data
  have hhigh (x y : UInt32) : (if c.low + x < c.low then c.high + 1 else c.high) + y =
      (if c.low + x < x then c.high + 1 else c.high) + y := by
    rw [if_congr (add_lt_left_iff c.low x) rfl rfl]
  have hindex : ((c.low >>> 3) &&& 63).toNat = c.index := rfl
  rw [SHA1Update, HashContext.update, SHA1Transform_eq, hhigh, hindex]
  by_cases h : 64 - c.index ≤ data.length
  · rw [HashContext.fill, if_pos h]
    exact if_pos (by omega)
  · rw [HashContext.fill, if_neg h]
    exact if_neg (by omega)

def initialState : Words := ⟨0x67452301, 0xEFCDAB89, 0x98BADCFE, 0x10325476, 0xC3D2E1F0⟩

/-- The digest of a message, as FIPS 180-1 has it. -/
def sha1 (msg : Bytes) : Bytes :=
  (absorb 64 compress initialState (HashContext.padded (beBytes 8) msg)).1.toList.flatMap
    (beBytes 4 ·.toNat)

theorem bytesOf_eq (w : UInt32) : bytesOf w = beBytes 4 w.toNat := by
  rw [beBytes, leBytes_toNat]
  rfl

theorem finalcount_eq (low high : UInt32) :
    bytesOf high ++ bytesOf low = beBytes 8 (low.toNat + 4294967296 * high.toNat) := by
  rw [beBytes, leBytes_two_words, List.reverse_append, bytesOf_eq, bytesOf_eq, beBytes, beBytes]

theorem and_504 (x : BitVec 32) : x &&& 504#32 = ((x >>> 3) &&& 63#32) <<< 3 := by
  refine BitVec.eq_of_getLsbD_eq fun j hj => ?_
  simp only [BitVec.getLsbD_and, BitVec.getLsbD_shiftLeft, BitVec.getLsbD_ushiftRight]
  interval_cases j <;> simp

/-- The test of the loop: eight bytes of the block are left. -/
theorem and_504_iff {c : Context} {msg : Bytes}
    (h : HashContext.Absorbed compress initialState msg c) :
    (c.low &&& 504) = 448 ↔ msg.length % 64 = 56 := by
  have hindex := h.index_eq
  have hlow : (c.low &&& (504 : UInt32)) = ((c.low >>> 3) &&& (63 : UInt32)) <<< 3 :=
    UInt32.toBitVec_inj.mp (and_504 c.low.toBitVec)
  have hlt : msg.length % 64 < 64 := Nat.mod_lt _ (by decide)
  have hshift : (((c.low >>> 3) &&& (63 : UInt32)) <<< 3).toNat = 8 * (msg.length % 64) := by
    rw [← hindex] at hlt ⊢
    rw [UInt32.toNat_shiftLeft, Nat.shiftLeft_eq, ← HashContext.index]
    change c.index * 2 ^ 3 % 2 ^ 32 = 8 * c.index
    omega
  have hvalue : (448 : UInt32).toNat = 448 := rfl
  rw [hlow, ← UInt32.toNat_inj, hshift, hvalue]
  omega

/-- The loop ends as soon as eight bytes of a block are left. -/
theorem padLoop_eq {c : Context} {msg : Bytes} {k n : ℕ}
    (h : HashContext.Absorbed compress initialState msg c) (hk : k = (120 - msg.length % 64) % 64)
    (hn : k < n) : ∃ c', padLoop n c = some c' ∧
      HashContext.Absorbed compress initialState (msg ++ List.replicate k 0) c' := by
  induction k generalizing c msg n with
  | zero =>
    obtain ⟨n, rfl⟩ := Nat.exists_eq_succ_of_ne_zero (by omega : n ≠ 0)
    refine ⟨c, ?_, by rwa [List.replicate_zero, List.append_nil]⟩
    rw [padLoop, if_pos ((and_504_iff h).mpr (by omega))]
  | succ k ih =>
    obtain ⟨n, rfl⟩ := Nat.exists_eq_succ_of_ne_zero (by omega : n ≠ 0)
    have hlen : (msg ++ [0]).length = msg.length + 1 := List.length_append
    obtain ⟨c', hc', h'⟩ := ih (h.update [0] (by decide)) (by omega) (by omega : k < n)
    refine ⟨c', ?_, ?_⟩
    · rw [padLoop, if_neg, SHA1Update_eq, hc']
      rw [and_504_iff h]
      omega
    · rwa [List.append_assoc, List.singleton_append, ← List.replicate_succ] at h'

theorem SHA1Final_eq {c : Context} {msg : Bytes}
    (h : HashContext.Absorbed compress initialState msg c) :
    SHA1Final 64 c = some (sha1 msg) := by
  have hfirst := h.update [0x80] (by decide)
  have hlen : (msg ++ [0x80]).length = msg.length + 1 := List.length_append
  have hzeros : HashContext.padZeros msg.length = (120 - (msg ++ [0x80]).length % 64) % 64 := by
    rw [hlen, HashContext.padZeros]
    omega
  obtain ⟨c', hc', h'⟩ := padLoop_eq hfirst hzeros (n := 64) (Nat.mod_lt _ (by decide))
  have hbits := h'.update (beBytes 8 (8 * msg.length % 18446744073709551616)) (by
    rw [length_beBytes]
    decide)
  have hbytes : bytesOf = (beBytes 4 ·.toNat) := funext bytesOf_eq
  rw [SHA1Final, finalcount_eq, h.count, SHA1Update_eq, hc', Option.map_some, hbits.state, hbytes,
    sha1, HashContext.padded, List.append_assoc msg, List.singleton_append]

/-- A message that is fed in pieces, into a context with whatever bytes in its buffer, has the
digest that FIPS 180-1 gives it; the loop that pads it ends within 64 turns. -/
theorem SHA1Final_pieces {c : Context} (hc : c.buffer.length = 64) {pieces : List Bytes}
    (hpieces : ∀ piece ∈ pieces, piece.length + 64 < 4294967296) :
    SHA1Final 64 (pieces.foldl SHA1Update (SHA1Init c)) = some (sha1 pieces.flatten) := by
  have hlt : ∀ piece ∈ pieces, piece.length < 4294967296 := fun piece hpiece => by
    have := hpieces piece hpiece
    omega
  rw [SHA1Update_eq]
  exact SHA1Final_eq ((HashContext.absorbed_create compress initialState hc).pieces hlt)

theorem SHA1Final_pieces_two :
    SHA1Final 64 ([[0x61], [0x62, 0x63]].foldl SHA1Update (SHA1Init ⟨7, 7, initialState,
      List.replicate 64 9⟩)) = some (sha1 [0x61, 0x62, 0x63]) :=
  SHA1Final_pieces (by decide) (by decide)

-- the first of the test vectors of the source
example : SHA1Final 64 (SHA1Update (SHA1Init ⟨0, 0, initialState, List.replicate 64 0⟩)
    [0x61, 0x62, 0x63]) = some [0xA9, 0x99, 0x3E, 0x36, 0x47, 0x06, 0x81, 0x6A, 0xBA, 0x3E, 0x25,
      0x71, 0x78, 0x50, 0xC2, 0x6C, 0x9C, 0xD0, 0xD8, 0x9D] := by decide +kernel

end LibWebsocket.Crypto.Sha1
