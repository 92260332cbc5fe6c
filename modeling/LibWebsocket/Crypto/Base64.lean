import LibWebsocket.Lib.Quad
import LibWebsocket.Url.Codec

/-! `https/base64.cpp`. -/
namespace LibWebsocket.Base64
open Lib

/-! ## Model -/

def base64Chars : Bytes :=
  Http.ascii "ABCDEFGHIJKLMNOPQRSTUVWXYZabcdefghijklmnopqrstuvwxyz0123456789+/"

def isBase64 (c : UInt8) : Bool := Url.isalnum c ∨ c = 43 ∨ c = 47

/-- `base64_chars.find(c)` as an `unsigned char`; `npos` becomes 255. -/
def find (c : UInt8) : UInt8 := .ofNat ((base64Chars.idxOf? c).getD 255)

def charOf (i : UInt8) : UInt8 := base64Chars.getD i.toNat 0

/-- `char_array_4` from `char_array_3`. -/
def encodeGroup (a b c : UInt8) : Quad UInt8 :=
  ⟨(a &&& 0xfc) >>> 2,
   ((a &&& 0x03) <<< 4) + ((b &&& 0xf0) >>> 4),
   ((b &&& 0x0f) <<< 2) + ((c &&& 0xc0) >>> 6),
   c &&& 0x3f⟩

/-- `Encode`; a last group that is not full is filled with zero bytes. -/
def encode : Bytes → Bytes
  | a :: b :: c :: rest => ((encodeGroup a b c).map charOf).toList ++ encode rest
  | [a, b] => ((encodeGroup a b 0).map charOf).toList.take 3 ++ [61]
  | [a] => ((encodeGroup a 0 0).map charOf).toList.take 2 ++ [61, 61]
  | [] => []

/-- `char_array_3` from `char_array_4`. -/
def decodeGroup (q : Quad UInt8) : Bytes :=
  [(q.x0 <<< 2) + ((q.x1 &&& 0x30) >>> 4),
   ((q.x1 &&& 0xf) <<< 4) + ((q.x2 &&& 0x3c) >>> 2),
   ((q.x2 &&& 0x3) <<< 6) + q.x3]

/-- The loop of `Decode` over the characters it accepts; a last group of `i` characters is filled
with zero characters, which `find` does not find, and gives `i - 1` bytes. -/
def decodeChars : Bytes → Bytes
  | a :: b :: c :: d :: rest => decodeGroup ((Quad.mk a b c d).map find) ++ decodeChars rest
  | [a, b, c] => (decodeGroup ((Quad.mk a b c 0).map find)).take 2
  | [a, b] => (decodeGroup ((Quad.mk a b 0 0).map find)).take 1
  | [a] => (decodeGroup ((Quad.mk a 0 0 0).map find)).take 0
  | [] => []

/-- `Decode` stops at the first character outside of the alphabet. -/
def decode (s : Bytes) : Bytes := decodeChars (s.takeWhile fun c => c ≠ 61 ∧ isBase64 c)

/-! ## One group -/

theorem find_charOf : ∀ i : UInt8, i.toNat < 64 → find (charOf i) = i :=
  forall_byte (by decide +kernel)

theorem isBase64_charOf : ∀ i : UInt8, i.toNat < 64 → charOf i ≠ 61 ∧ isBase64 (charOf i) :=
  forall_byte (by decide +kernel)

/-- The masks and shifts of `Encode` as numbers. -/
theorem encode_masks : ∀ x : UInt8, ((x &&& 0xfc) >>> 2).toNat = x.toNat / 4 ∧
    ((x &&& 0x03) <<< 4).toNat = x.toNat % 4 * 16 ∧ ((x &&& 0xf0) >>> 4).toNat = x.toNat / 16 ∧
    ((x &&& 0x0f) <<< 2).toNat = x.toNat % 16 * 4 ∧ ((x &&& 0xc0) >>> 6).toNat = x.toNat / 64 ∧
    (x &&& 0x3f).toNat = x.toNat % 64 :=
  forall_byte (by decide +kernel)

/-- The masks and shifts of `Decode` as numbers. -/
theorem decode_masks : ∀ x : UInt8, (x <<< 2).toNat = x.toNat * 4 % 256 ∧
    ((x &&& 0x30) >>> 4).toNat = x.toNat / 16 % 4 ∧ ((x &&& 0xf) <<< 4).toNat = x.toNat % 16 * 16 ∧
    ((x &&& 0x3c) >>> 2).toNat = x.toNat / 4 % 16 ∧ ((x &&& 0x3) <<< 6).toNat = x.toNat % 4 * 64 :=
  forall_byte (by decide +kernel)

theorem toNat_encodeGroup (a b c : UInt8) :
    (encodeGroup a b c).x0.toNat = a.toNat / 4 ∧
    (encodeGroup a b c).x1.toNat = a.toNat % 4 * 16 + b.toNat / 16 ∧
    (encodeGroup a b c).x2.toNat = b.toNat % 16 * 4 + c.toNat / 64 ∧
    (encodeGroup a b c).x3.toNat = c.toNat % 64 := by
  obtain ⟨ha0, ha1, -⟩ := encode_masks a
  obtain ⟨-, -, hb1, hb2, -⟩ := encode_masks b
  obtain ⟨-, -, -, -, hc2, hc3⟩ := encode_masks c
  have ha := a.toNat_lt
  have hb := b.toNat_lt
  have hc := c.toNat_lt
  simp only [encodeGroup, UInt8.toNat_add, ha0, ha1, hb1, hb2, hc2, hc3, true_and, and_true]
  omega

theorem encodeGroup_lt (a b c : UInt8) : ∀ i ∈ (encodeGroup a b c).toList, i.toNat < 64 := by
  obtain ⟨h0, h1, h2, h3⟩ := toNat_encodeGroup a b c
  have ha := a.toNat_lt
  have hb := b.toNat_lt
  have hc := c.toNat_lt
  simp only [Quad.toList, List.forall_mem_cons, h0, h1, h2, h3]
  refine ⟨by omega, by omega, by omega, by omega, by simp⟩

theorem decodeGroup_encodeGroup (a b c : UInt8) : decodeGroup (encodeGroup a b c) = [a, b, c] := by
  obtain ⟨h0, h1, h2, h3⟩ := toNat_encodeGroup a b c
  obtain ⟨hx0, -⟩ := decode_masks (encodeGroup a b c).x0
  obtain ⟨-, hx1, hx1', -⟩ := decode_masks (encodeGroup a b c).x1
  obtain ⟨-, -, -, hx2, hx2'⟩ := decode_masks (encodeGroup a b c).x2
  have ha := a.toNat_lt
  have hb := b.toNat_lt
  have hc := c.toNat_lt
  simp only [decodeGroup, List.cons.injEq, and_true, ← UInt8.toNat_inj, UInt8.toNat_add, hx0, hx1,
    hx1', hx2, hx2', h0, h1, h2, h3]
  omega

theorem map_find_map_charOf (a b c : UInt8) :
    ((encodeGroup a b c).map charOf).map find = encodeGroup a b c := by
  have h := encodeGroup_lt a b c
  simp only [Quad.toList, List.forall_mem_cons] at h
  obtain ⟨h0, h1, h2, h3, -⟩ := h
  simp [Quad.map, find_charOf _ h0, find_charOf _ h1, find_charOf _ h2, find_charOf _ h3]

/-! ## The round trip -/

/-- `Decode` reads past characters of the alphabet. -/
theorem decode_charOf {l : List UInt8} (h : ∀ i ∈ l, i.toNat < 64) (rest : Bytes) :
    decode (l.map charOf ++ rest) =
      decodeChars (l.map charOf ++ rest.takeWhile fun c => c ≠ 61 ∧ isBase64 c) := by
  rw [decode, List.takeWhile_append_of_pos]
  intro c hc
  obtain ⟨i, hi, rfl⟩ := List.mem_map.mp hc
  exact decide_eq_true (isBase64_charOf i (h i hi))

theorem decode_group (a b c : UInt8) (rest : Bytes) :
    decode (((encodeGroup a b c).map charOf).toList ++ rest) = a :: b :: c :: decode rest := by
  have hlt := encodeGroup_lt a b c
  calc
    _ = decodeChars ((encodeGroup a b c).toList.map charOf ++
        rest.takeWhile fun c => c ≠ 61 ∧ isBase64 c) := decode_charOf hlt rest
    _ = decodeGroup (((encodeGroup a b c).map charOf).map find) ++ decode rest := rfl
    _ = [a, b, c] ++ decode rest := by rw [map_find_map_charOf, decodeGroup_encodeGroup]

/-- A last group of `n + 1` characters gives `n` bytes, whatever stands for those that miss. -/
theorem decodeChars_take (q : Quad UInt8) {n : ℕ} (hn : n = 1 ∨ n = 2) :
    decodeChars (q.toList.take (n + 1)) = (decodeGroup (q.map find)).take n := by
  rcases hn with rfl | rfl <;> simp [Quad.toList, decodeChars, decodeGroup, Quad.map]

theorem decode_lastGroup (a b c : UInt8) {n : ℕ} (hn : n = 1 ∨ n = 2) (fill : Bytes) :
    decode (((encodeGroup a b c).map charOf).toList.take (n + 1) ++ 61 :: fill) =
      [a, b, c].take n := by
  have hlt : ∀ i ∈ (encodeGroup a b c).toList.take (n + 1), i.toNat < 64 := fun i hi =>
    encodeGroup_lt a b c i (List.mem_of_mem_take hi)
  calc
    _ = decodeChars (((encodeGroup a b c).toList.take (n + 1)).map charOf ++ []) := by
      rw [← List.takeWhile_cons_of_neg (a := 61) (l := fill)
        (p := fun c => c ≠ 61 ∧ isBase64 c) (by simp), ← decode_charOf hlt, List.map_take]
      rfl
    _ = decodeChars (((encodeGroup a b c).map charOf).toList.take (n + 1)) := by
      rw [List.append_nil, List.map_take]
      rfl
    _ = _ := by rw [decodeChars_take _ hn, map_find_map_charOf, decodeGroup_encodeGroup]

theorem decode_encode (b : Bytes) : decode (encode b) = b := by
  fun_induction encode b with
  | case1 a b c rest ih => rw [decode_group, ih]
  | case2 a b => exact decode_lastGroup a b 0 (Or.inr rfl) []
  | case3 a => exact decode_lastGroup a 0 0 (Or.inl rfl) [61]
  | case4 => rfl

theorem mem_map_charOf {l : List UInt8} (h : ∀ i ∈ l, i.toNat < 64) {c : UInt8}
    (hc : c ∈ l.map charOf) : isBase64 c := by
  obtain ⟨i, hi, rfl⟩ := List.mem_map.mp hc
  exact (isBase64_charOf i (h i hi)).2

/-- `Encode` writes the alphabet and `=`. -/
theorem mem_encode {b : Bytes} {c : UInt8} (h : c ∈ encode b) : isBase64 c ∨ c = 61 := by
  fun_induction encode b with
  | case1 x y z rest ih =>
    rcases List.mem_append.mp h with hgroup | hrest
    · exact Or.inl (mem_map_charOf (encodeGroup_lt x y z) hgroup)
    · exact ih hrest
  | case2 x y =>
    rcases List.mem_append.mp h with hgroup | hfill
    · exact Or.inl (mem_map_charOf (encodeGroup_lt x y 0) (List.mem_of_mem_take hgroup))
    · exact Or.inr (by simpa using hfill)
  | case3 x =>
    rcases List.mem_append.mp h with hgroup | hfill
    · exact Or.inl (mem_map_charOf (encodeGroup_lt x 0 0) (List.mem_of_mem_take hgroup))
    · exact Or.inr (by simpa using hfill)
  | case4 => simp at h

/-! ## What `Decode` accepts -/

/-- One character is not enough for a byte. -/
theorem decode_eq_nil_iff (s : Bytes) : decode s = [] ↔ (s.takeWhile isBase64).length < 2 := by
  have hstop : (fun c : UInt8 => decide (c ≠ 61 ∧ isBase64 c)) = isBase64 :=
    funext (forall_byte (by decide +kernel))
  rw [decode, hstop]
  generalize s.takeWhile isBase64 = l
  fun_cases decodeChars l <;> simp [decodeGroup]

end LibWebsocket.Base64
