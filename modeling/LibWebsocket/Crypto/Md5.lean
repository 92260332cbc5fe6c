import LibWebsocket.Lib.BlockHash

/-! The MD5 of `mymd5.cpp`: its unrolled rounds are the loop of the RFC, and a message that is fed
in pieces has the digest of the whole. -/
namespace LibWebsocket.Crypto.Md5

open LibWebsocket.Lib

/-- `state`, and the variables `a`, `b`, `c` and `d`. -/
structure Words where
  a : UInt32
  b : UInt32
  c : UInt32
  d : UInt32
deriving DecidableEq, Repr

inductive Var
  | a | b | c | d
deriving DecidableEq, Repr

namespace Words

def get (w : Words) : Var → UInt32
  | .a => w.a
  | .b => w.b
  | .c => w.c
  | .d => w.d

def set (w : Words) (v : UInt32) : Var → Words
  | .a => { w with a := v }
  | .b => { w with b := v }
  | .c => { w with c := v }
  | .d => { w with d := v }

def add (w w' : Words) : Words := ⟨w.a + w'.a, w.b + w'.b, w.c + w'.c, w.d + w'.d⟩

def toList (w : Words) : List UInt32 := [w.a, w.b, w.c, w.d]

end Words

/-! ### The source -/

/-- Which of `FF__`, `GG__`, `HH__` and `II__` is used. -/
inductive Fn
  | F | G | H | I
deriving DecidableEq, Repr

def Fn.apply (x y z : UInt32) : Fn → UInt32
  | .F => (x &&& y) ||| (~~~x &&& z)
  | .G => (x &&& z) ||| (y &&& ~~~z)
  | .H => x ^^^ y ^^^ z
  | .I => y ^^^ (x ||| ~~~z)

/-- `ROTATE_LEFT`. -/
def rotateLeft (x n : UInt32) : UInt32 := (x <<< n) ||| (x >>> (32 - n))

/-- One line of `MD5Transform`: `a += F(b, c, d) + x[k] + ac; a = ROTATE_LEFT(a, s); a += b`, with
the variables in the places of `a`, `b`, `c` and `d`. -/
structure Line where
  fn : Fn
  a : Var
  b : Var
  c : Var
  d : Var
  k : ℕ
  s : UInt32
  ac : UInt32
deriving DecidableEq, Repr

def Line.exec (x : ℕ → UInt32) (w : Words) (l : Line) : Words :=
  w.set (rotateLeft (w.get l.a + (l.fn.apply (w.get l.b) (w.get l.c) (w.get l.d) + x l.k + l.ac)) l.s
    + w.get l.b) l.a

def lines : List Line := [
  ⟨.F, .a, .b, .c, .d, 0, 7, 0xd76aa478⟩, ⟨.F, .d, .a, .b, .c, 1, 12, 0xe8c7b756⟩,
  ⟨.F, .c, .d, .a, .b, 2, 17, 0x242070db⟩, ⟨.F, .b, .c, .d, .a, 3, 22, 0xc1bdceee⟩,
  ⟨.F, .a, .b, .c, .d, 4, 7, 0xf57c0faf⟩, ⟨.F, .d, .a, .b, .c, 5, 12, 0x4787c62a⟩,
  ⟨.F, .c, .d, .a, .b, 6, 17, 0xa8304613⟩, ⟨.F, .b, .c, .d, .a, 7, 22, 0xfd469501⟩,
  ⟨.F, .a, .b, .c, .d, 8, 7, 0x698098d8⟩, ⟨.F, .d, .a, .b, .c, 9, 12, 0x8b44f7af⟩,
  ⟨.F, .c, .d, .a, .b, 10, 17, 0xffff5bb1⟩, ⟨.F, .b, .c, .d, .a, 11, 22, 0x895cd7be⟩,
  ⟨.F, .a, .b, .c, .d, 12, 7, 0x6b901122⟩, ⟨.F, .d, .a, .b, .c, 13, 12, 0xfd987193⟩,
  ⟨.F, .c, .d, .a, .b, 14, 17, 0xa679438e⟩, ⟨.F, .b, .c, .d, .a, 15, 22, 0x49b40821⟩,
  ⟨.G, .a, .b, .c, .d, 1, 5, 0xf61e2562⟩, ⟨.G, .d, .a, .b, .c, 6, 9, 0xc040b340⟩,
  ⟨.G, .c, .d, .a, .b, 11, 14, 0x265e5a51⟩, ⟨.G, .b, .c, .d, .a, 0, 20, 0xe9b6c7aa⟩,
  ⟨.G, .a, .b, .c, .d, 5, 5, 0xd62f105d⟩, ⟨.G, .d, .a, .b, .c, 10, 9, 0x2441453⟩,
  ⟨.G, .c, .d, .a, .b, 15, 14, 0xd8a1e681⟩, ⟨.G, .b, .c, .d, .a, 4, 20, 0xe7d3fbc8⟩,
  ⟨.G, .a, .b, .c, .d, 9, 5, 0x21e1cde6⟩, ⟨.G, .d, .a, .b, .c, 14, 9, 0xc33707d6⟩,
  ⟨.G, .c, .d, .a, .b, 3, 14, 0xf4d50d87⟩, ⟨.G, .b, .c, .d, .a, 8, 20, 0x455a14ed⟩,
  ⟨.G, .a, .b, .c, .d, 13, 5, 0xa9e3e905⟩, ⟨.G, .d, .a, .b, .c, 2, 9, 0xfcefa3f8⟩,
  ⟨.G, .c, .d, .a, .b, 7, 14, 0x676f02d9⟩, ⟨.G, .b, .c, .d, .a, 12, 20, 0x8d2a4c8a⟩,
  ⟨.H, .a, .b, .c, .d, 5, 4, 0xfffa3942⟩, ⟨.H, .d, .a, .b, .c, 8, 11, 0x8771f681⟩,
  ⟨.H, .c, .d, .a, .b, 11, 16, 0x6d9d6122⟩, ⟨.H, .b, .c, .d, .a, 14, 23, 0xfde5380c⟩,
  ⟨.H, .a, .b, .c, .d, 1, 4, 0xa4beea44⟩, ⟨.H, .d, .a, .b, .c, 4, 11, 0x4bdecfa9⟩,
  ⟨.H, .c, .d, .a, .b, 7, 16, 0xf6bb4b60⟩, ⟨.H, .b, .c, .d, .a, 10, 23, 0xbebfbc70⟩,
  ⟨.H, .a, .b, .c, .d, 13, 4, 0x289b7ec6⟩, ⟨.H, .d, .a, .b, .c, 0, 11, 0xeaa127fa⟩,
  ⟨.H, .c, .d, .a, .b, 3, 16, 0xd4ef3085⟩, ⟨.H, .b, .c, .d, .a, 6, 23, 0x4881d05⟩,
  ⟨.H, .a, .b, .c, .d, 9, 4, 0xd9d4d039⟩, ⟨.H, .d, .a, .b, .c, 12, 11, 0xe6db99e5⟩,
  ⟨.H, .c, .d, .a, .b, 15, 16, 0x1fa27cf8⟩, ⟨.H, .b, .c, .d, .a, 2, 23, 0xc4ac5665⟩,
  ⟨.I, .a, .b, .c, .d, 0, 6, 0xf4292244⟩, ⟨.I, .d, .a, .b, .c, 7, 10, 0x432aff97⟩,
  ⟨.I, .c, .d, .a, .b, 14, 15, 0xab9423a7⟩, ⟨.I, .b, .c, .d, .a, 5, 21, 0xfc93a039⟩,
  ⟨.I, .a, .b, .c, .d, 12, 6, 0x655b59c3⟩, ⟨.I, .d, .a, .b, .c, 3, 10, 0x8f0ccc92⟩,
  ⟨.I, .c, .d, .a, .b, 10, 15, 0xffeff47d⟩, ⟨.I, .b, .c, .d, .a, 1, 21, 0x85845dd1⟩,
  ⟨.I, .a, .b, .c, .d, 8, 6, 0x6fa87e4f⟩, ⟨.I, .d, .a, .b, .c, 15, 10, 0xfe2ce6e0⟩,
  ⟨.I, .c, .d, .a, .b, 6, 15, 0xa3014314⟩, ⟨.I, .b, .c, .d, .a, 13, 21, 0x4e0811a1⟩,
  ⟨.I, .a, .b, .c, .d, 4, 6, 0xf7537e82⟩, ⟨.I, .d, .a, .b, .c, 11, 10, 0xbd3af235⟩,
  ⟨.I, .c, .d, .a, .b, 2, 15, 0x2ad7d2bb⟩, ⟨.I, .b, .c, .d, .a, 9, 21, 0xeb86d391⟩
]

/-- The words of a block, as `MD5Decode` makes them of its bytes. -/
def MD5Decode (block : Bytes) (i : ℕ) : UInt32 :=
  (block.getD (4 * i) 0).toUInt32 ||| ((block.getD (4 * i + 1) 0).toUInt32 <<< 8)
    ||| ((block.getD (4 * i + 2) 0).toUInt32 <<< 16) ||| ((block.getD (4 * i + 3) 0).toUInt32 <<< 24)

def MD5Encode (input : List UInt32) : Bytes :=
  input.flatMap fun w : UInt32 => [(w &&& 0xFF).toUInt8, ((w >>> 8) &&& 0xFF).toUInt8,
    ((w >>> 16) &&& 0xFF).toUInt8, ((w >>> 24) &&& 0xFF).toUInt8]

def MD5Transform (state : Words) (block : Bytes) : Words :=
  state.add (lines.foldl (Line.exec (MD5Decode block)) state)

/-- `MY_MD5_CTX`: `count[0]` and `count[1]` are `low` and `high`. -/
abbrev Context := HashContext Words

/-- The buffer is left as it is. -/
def MD5Init (c : Context) : Context :=
  { c with low := 0, high := 0, state := ⟨0x67452301, 0xEFCDAB89, 0x98BADCFE, 0x10325476⟩ }

/-- For inputs of which the length and `i + 64` are an `unsigned int`. -/
def MD5Update (c : Context) (input : Bytes) : Context :=
  let inputlen := UInt32.ofNat input.length
  let index := ((c.low >>> 3) &&& 0x3F).toNat
  let partlen := 64 - index
  let low := c.low + (inputlen <<< 3)
  let high := (if low < inputlen <<< 3 then c.high + 1 else c.high) + (inputlen >>> 29)
  if partlen ≤ input.length then
    let buffer := overwrite c.buffer index (input.take partlen)
    let r := absorb 64 MD5Transform (MD5Transform c.state buffer) (input.drop partlen)
    ⟨low, high, r.1, overwrite buffer 0 r.2⟩
  else ⟨low, high, c.state, overwrite c.buffer index input⟩

def PADDING : Bytes := 0x80 :: List.replicate 63 0

def MD5Final (c : Context) : Bytes :=
  let index := ((c.low >>> 3) &&& 0x3F).toNat
  let padlen := if index < 56 then 56 - index else 120 - index
  let bits := MD5Encode [c.low, c.high]
  MD5Encode (MD5Update (MD5Update c (PADDING.take padlen)) bits).state.toList

/-! ### The rounds -/

/-- The constants of RFC 1321: the integer part of `4294967296 * |sin (i + 1)|`. -/
def sines : List UInt32 := [
  0xd76aa478, 0xe8c7b756, 0x242070db, 0xc1bdceee, 0xf57c0faf, 0x4787c62a,
  0xa8304613, 0xfd469501, 0x698098d8, 0x8b44f7af, 0xffff5bb1, 0x895cd7be,
  0x6b901122, 0xfd987193, 0xa679438e, 0x49b40821, 0xf61e2562, 0xc040b340,
  0x265e5a51, 0xe9b6c7aa, 0xd62f105d, 0x2441453, 0xd8a1e681, 0xe7d3fbc8,
  0x21e1cde6, 0xc33707d6, 0xf4d50d87, 0x455a14ed, 0xa9e3e905, 0xfcefa3f8,
  0x676f02d9, 0x8d2a4c8a, 0xfffa3942, 0x8771f681, 0x6d9d6122, 0xfde5380c,
  0xa4beea44, 0x4bdecfa9, 0xf6bb4b60, 0xbebfbc70, 0x289b7ec6, 0xeaa127fa,
  0xd4ef3085, 0x4881d05, 0xd9d4d039, 0xe6db99e5, 0x1fa27cf8, 0xc4ac5665,
  0xf4292244, 0x432aff97, 0xab9423a7, 0xfc93a039, 0x655b59c3, 0x8f0ccc92,
  0xffeff47d, 0x85845dd1, 0x6fa87e4f, 0xfe2ce6e0, 0xa3014314, 0x4e0811a1,
  0xf7537e82, 0xbd3af235, 0x2ad7d2bb, 0xeb86d391
]

/-- The word of the block that round `i` takes. -/
def wordIndex (i : ℕ) : ℕ :=
  match i / 16 with
  | 0 => i
  | 1 => (5 * i + 1) % 16
  | 2 => (3 * i + 5) % 16
  | _ => 7 * i % 16

def shift (i : ℕ) : UInt32 :=
  match i / 16, i % 4 with
  | 0, 0 => 7 | 0, 1 => 12 | 0, 2 => 17 | 0, _ => 22
  | 1, 0 => 5 | 1, 1 => 9 | 1, 2 => 14 | 1, _ => 20
  | 2, 0 => 4 | 2, 1 => 11 | 2, 2 => 16 | 2, _ => 23
  | _, 0 => 6 | _, 1 => 10 | _, 2 => 15 | _, _ => 21

def roundFn (i : ℕ) : Fn :=
  match i / 16 with
  | 0 => .F
  | 1 => .G
  | 2 => .H
  | _ => .I

/-- A round of the loop, behind which the variables are renamed. -/
def round (x : ℕ → UInt32) (w : Words) (i : ℕ) : Words where
  a := w.d
  b := w.b + rotateLeft (w.a + (roundFn i).apply w.b w.c w.d + x (wordIndex i) + sines.getD i 0)
    (shift i)
  c := w.b
  d := w.c

/-- What RFC 1321 makes of a state and a block. -/
def compress (state : Words) (block : Bytes) : Words :=
  state.add ((List.range 64).foldl (round (leWord block)) state)

/-- Which variables are in the places of `a`, `b`, `c` and `d` in line `i`. -/
def places (i : ℕ) : Var × Var × Var × Var :=
  match i % 4 with
  | 0 => (.a, .b, .c, .d)
  | 1 => (.d, .a, .b, .c)
  | 2 => (.c, .d, .a, .b)
  | _ => (.b, .c, .d, .a)

def line (i : ℕ) : Line :=
  ⟨roundFn i, (places i).1, (places i).2.1, (places i).2.2.1, (places i).2.2.2, wordIndex i,
    shift i, sines.getD i 0⟩

theorem lines_eq : lines = (List.range 64).map line := by decide +kernel

/-- The words of round `i`, when the variables are not renamed. -/
def renamed (i : ℕ) (w : Words) : Words :=
  ⟨w.get (places i).1, w.get (places i).2.1, w.get (places i).2.2.1, w.get (places i).2.2.2⟩

theorem renamed_exec (x : ℕ → UInt32) (w : Words) (i : ℕ) :
    renamed (i + 1) ((line i).exec x w) = round x (renamed i w) i := by
  have hvalue (a b f y ac n : UInt32) :
      rotateLeft (a + (f + y + ac)) n + b = b + rotateLeft (a + f + y + ac) n := by
    rw [UInt32.add_comm, ← UInt32.add_assoc, ← UInt32.add_assoc]
  have hcases : i % 4 = 0 ∧ (i + 1) % 4 = 1 ∨ i % 4 = 1 ∧ (i + 1) % 4 = 2 ∨
      i % 4 = 2 ∧ (i + 1) % 4 = 3 ∨ i % 4 = 3 ∧ (i + 1) % 4 = 0 := by omega
  rcases hcases with ⟨h, h'⟩ | ⟨h, h'⟩ | ⟨h, h'⟩ | ⟨h, h'⟩ <;>
    simp only [renamed, places, h, h', Line.exec, line, round, Words.get, Words.set, hvalue]

theorem foldl_exec (x : ℕ → UInt32) (w : Words) (n : ℕ) :
    renamed n (((List.range n).map line).foldl (Line.exec x) w) =
      (List.range n).foldl (round x) w := by
  induction n with
  | zero => rfl
  | succ n ih =>
    rw [List.range_succ, List.map_append, List.foldl_append, List.foldl_append, ← ih]
    exact renamed_exec x _ n

/-! ### Words and bytes -/

theorem MD5Decode_eq (block : Bytes) : MD5Decode block = leWord block :=
  funext fun _ => or_shiftLeft ..

theorem MD5Encode_eq (ws : List UInt32) : MD5Encode ws = ws.flatMap (leBytes 4 ·.toNat) := by
  simp only [MD5Encode, leBytes_toNat]

theorem renamed_all (w : Words) : renamed 64 w = w := rfl

/-- The unrolled lines do what RFC 1321 says. -/
theorem MD5Transform_eq : MD5Transform = compress := by
  funext state block
  rw [MD5Transform, compress, lines_eq, ← foldl_exec, MD5Decode_eq, renamed_all]

theorem MD5Update_eq : MD5Update = HashContext.update compress := by
  funext c input
  rw [MD5Update, HashContext.update, MD5Transform_eq]
  by_cases h : 64 - c.index ≤ input.length
  · rw [HashContext.fill, if_pos h]
    exact if_pos h
  · rw [HashContext.fill, if_neg h]
    exact if_neg h

/-! ### The digest -/

def initialState : Words := ⟨0x67452301, 0xEFCDAB89, 0x98BADCFE, 0x10325476⟩

/-- The digest of a message, as RFC 1321 has it. -/
def md5 (msg : Bytes) : Bytes :=
  (absorb 64 compress initialState (HashContext.padded (leBytes 8) msg)).1.toList.flatMap
    (leBytes 4 ·.toNat)

theorem take_padding (len : ℕ) :
    PADDING.take (if len % 64 < 56 then 56 - len % 64 else 120 - len % 64) =
      0x80 :: List.replicate (HashContext.padZeros len) 0 := by
  have hzeros : (if len % 64 < 56 then 56 - len % 64 else 120 - len % 64) =
      HashContext.padZeros len + 1 := by
    rw [HashContext.padZeros]
    split_ifs <;> omega
  have hmin : min (HashContext.padZeros len) 63 = HashContext.padZeros len := by
    rw [HashContext.padZeros]
    omega
  rw [hzeros, PADDING, List.take_succ_cons, List.take_replicate, hmin]

theorem MD5Final_eq {c : Context} {msg : Bytes}
    (h : HashContext.Absorbed compress initialState msg c) : MD5Final c = md5 msg := by
  have hindex : ((c.low >>> 3) &&& 0x3F).toNat = msg.length % 64 := h.index_eq
  have hpad := h.update (0x80 :: List.replicate (HashContext.padZeros msg.length) 0) (by
    rw [List.length_cons, List.length_replicate, HashContext.padZeros]
    omega)
  have hbits := hpad.update (leBytes 8 (8 * msg.length % 18446744073709551616)) (by
    rw [length_leBytes]
    decide)
  have hcount : MD5Encode [c.low, c.high] = leBytes 8 (8 * msg.length % 18446744073709551616) := by
    rw [← h.count, leBytes_two_words, MD5Encode_eq, List.flatMap_cons, List.flatMap_singleton]
  rw [MD5Final, hindex, take_padding, hcount, MD5Update_eq, hbits.state, MD5Encode_eq, md5,
    HashContext.padded]

/-- A message that is fed in pieces, into a context with whatever bytes in its buffer, has the
digest that RFC 1321 gives it. -/
theorem MD5Final_pieces {c : Context} (hc : c.buffer.length = 64) {pieces : List Bytes}
    (hpieces : ∀ piece ∈ pieces, piece.length + 64 < 4294967296) :
    MD5Final (pieces.foldl MD5Update (MD5Init c)) = md5 pieces.flatten := by
  have hlt : ∀ piece ∈ pieces, piece.length < 4294967296 := fun piece hpiece => by
    have := hpieces piece hpiece
    omega
  rw [MD5Update_eq]
  exact MD5Final_eq ((HashContext.absorbed_create compress initialState hc).pieces hlt)

theorem MD5Final_pieces_two :
    MD5Final ([[0x61], [0x62, 0x63]].foldl MD5Update (MD5Init ⟨7, 7, initialState,
      List.replicate 64 9⟩)) = md5 [0x61, 0x62, 0x63] :=
  MD5Final_pieces (by decide) (by decide)

-- "abc" of the test suite of the RFC
example : md5 [0x61, 0x62, 0x63] = [0x90, 0x01, 0x50, 0x98, 0x3c, 0xd2, 0x4f, 0xb0, 0xd6, 0x96,
    0x3f, 0x7d, 0x28, 0xe1, 0x7f, 0x72] := by decide +kernel

end LibWebsocket.Crypto.Md5
