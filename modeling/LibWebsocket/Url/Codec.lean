import LibWebsocket.Http.Parse

/-! The functions of `urlcodec.cpp`. -/
namespace LibWebsocket.Url
open Lib Http

/-- `isalnum` in the C locale. -/
def isalnum (c : UInt8) : Bool := 48 ≤ c ∧ c ≤ 57 ∨ 65 ≤ c ∧ c ≤ 90 ∨ 97 ≤ c ∧ c ≤ 122

/-- A `char` of -1 is the byte 255. -/
def charToInt (ch : UInt8) : UInt8 :=
  if 48 ≤ ch ∧ ch ≤ 57 then ch - 48
  else if 97 ≤ ch ∧ ch ≤ 102 then ch - 97 + 10
  else if 65 ≤ ch ∧ ch ≤ 70 then ch - 65 + 10
  else 255

def strToBin (a b : UInt8) : UInt8 := charToInt a <<< 4 ||| charToInt b

def toHex (x : UInt8) : UInt8 := if 9 < x then x + 55 else x + 48

section Multiple

/-- What `Encode_2` writes for a character. -/
def encodeByte (c : UInt8) : Bytes :=
  if isalnum c then [c]
  else if HttpRequest.isspace c then [43]
  else [37, toHex (c >>> 4), toHex (c % 16)]

/-- `Encode_2`. -/
def multipleEncode (str : Bytes) : Bytes := str.flatMap encodeByte

/-- The variables of `Decode_`, with the indices at which it has read `str`. -/
structure Pass where
  i : ℕ
  result : Bytes
  ret : Bool
  reads : List ℕ
deriving DecidableEq, Repr

/-- A read past the end gives NUL. -/
def charAt (str : Bytes) (i : ℕ) : UInt8 := str.getD i 0

/-- The body of the loop of `Decode_`. -/
def Pass.iterate (str : Bytes) (p : Pass) : Pass :=
  if charAt str p.i = 37 then
    let ch := strToBin (charAt str (p.i + 1)) (charAt str (p.i + 2))
    if ch = 37 then
      let ch := strToBin (charAt str (p.i + 3)) (charAt str (p.i + 4))
      { i := p.i + 5, result := p.result ++ [ch], ret := p.ret || ch = 37,
        reads := p.reads ++ [p.i, p.i + 1, p.i + 2, p.i + 3, p.i + 4] }
    else
      { p with i := p.i + 3, result := p.result ++ [ch],
               reads := p.reads ++ [p.i, p.i + 1, p.i + 2] }
  else if charAt str p.i = 43 then
    { p with i := p.i + 1, result := p.result ++ [32], reads := p.reads ++ [p.i] }
  else
    { p with i := p.i + 1, result := p.result ++ [charAt str p.i], reads := p.reads ++ [p.i] }

/-- Each iteration moves on, so that as many as there are characters are enough. -/
def Pass.loop (str : Bytes) : ℕ → Pass → Pass
  | 0, p => p
  | fuel + 1, p => if p.i < str.length then loop str fuel (p.iterate str) else p

/-- `Decode_`. -/
def decodePass (str : Bytes) : Pass := Pass.loop str str.length ⟨0, [], false, []⟩

/-- The loop of `Decode_2`, if it ends within the given number of passes. -/
def decodeAgain : ℕ → Bytes → Option Bytes
  | 0, _ => none
  | fuel + 1, temp =>
    let p := decodePass temp
    if p.ret then decodeAgain fuel p.result else some p.result

/-- `Decode_2`, with a bound on the passes of its loop. -/
def decode2 (fuel : ℕ) (str : Bytes) : Option Bytes :=
  let p := decodePass str
  if p.ret then decodeAgain fuel p.result else some p.result

def multipleDecode (str : Bytes) : Bytes := (decode2 str.length str).getD []

end Multiple

section Single

/-- `x >> n` for a value of type `int`. C++ leaves a shift by 32 bits or more undefined; `ub` is
what the machine makes of it. -/
def shiftRight (ub : ℕ → ℕ → ℕ) (x n : ℕ) : ℕ := if n < 32 then x >>> n else ub x n

/-- `_INLINE_C_2_H((unsigned char)d.at(i) >> 4)`: the sum binds tighter than the shift. -/
def highHex (ub : ℕ → ℕ → ℕ) (c : UInt8) : UInt8 :=
  .ofNat (if 9 < shiftRight ub c.toNat 4 then shiftRight ub c.toNat (4 + 55)
    else shiftRight ub c.toNat (4 + 48))

/-- `_INLINE_C_2_H((unsigned char)d.at(i) % 16)`. -/
def lowHex (c : UInt8) : UInt8 :=
  .ofNat (if 9 < c.toNat % 16 then c.toNat % 16 + 55 else c.toNat % 16 + 48)

/-- The characters that `Encode_1` leaves as they are. -/
def unreserved (c : UInt8) : Bool := isalnum c ∨ c = 45 ∨ c = 95 ∨ c = 46 ∨ c = 126

/-- What `Encode_1` writes for a byte. -/
def encodeChar (ub : ℕ → ℕ → ℕ) (c : UInt8) : Bytes :=
  if unreserved c then [c] else if c = 32 then [43] else [37, highHex ub c, lowHex c]

/-- `Encode_1`. -/
def encode (ub : ℕ → ℕ → ℕ) (d : Bytes) : Bytes := d.flatMap (encodeChar ub)

/-- `__INLINE_H_2_C`. -/
def hexToChar (x : UInt8) : UInt8 :=
  if 65 ≤ x ∧ x ≤ 90 then x - 65 + 10
  else if 97 ≤ x ∧ x ≤ 122 then x - 97 + 10
  else if 48 ≤ x ∧ x ≤ 57 then x - 48
  else x

/-- `Decode_1`. Behind a `%` that is not followed by two characters everything is copied. -/
def decode : Bytes → Bytes
  | [] => []
  | c :: e =>
    if c = 43 then 32 :: decode e
    else if c = 37 then
      match e with
      | a :: b :: e => (hexToChar a * 16 + hexToChar b) :: decode e
      | e => c :: e
    else c :: decode e

end Single

end LibWebsocket.Url
