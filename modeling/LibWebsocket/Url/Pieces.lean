import LibWebsocket.Lib.Byte
import LibWebsocket.Url.Codec

/-! A pass of `Decode_` reads its string piece by piece: characters, and escapes of three or of
five characters. -/
namespace LibWebsocket.Url
open Lib Http

section Hex
variable {a b : UInt8}

/-- The values of hexadecimal digits, and that of other characters. -/
def intValues : List UInt8 := [0, 1, 2, 3, 4, 5, 6, 7, 8, 9, 10, 11, 12, 13, 14, 15, 255]

theorem charToInt_mem : ∀ a, charToInt a ∈ intValues :=
  forall_byte (by decide +kernel)

theorem eq_of_charToInt : ∀ a, (charToInt a = 2 → a = 50) ∧ (charToInt a = 5 → a = 53) :=
  forall_byte (by decide +kernel)

/-- Only `25` stands for a `%`. -/
theorem strToBin_eq_percent_iff : strToBin a b = 37 ↔ a = 50 ∧ b = 53 := by
  constructor
  · intro h
    have hvalues : ∀ x ∈ intValues, ∀ y ∈ intValues, x <<< 4 ||| y = 37 → x = 2 ∧ y = 5 := by
      decide +kernel
    obtain ⟨ha, hb⟩ := hvalues _ (charToInt_mem a) _ (charToInt_mem b) h
    exact ⟨(eq_of_charToInt a).1 ha, (eq_of_charToInt b).2 hb⟩
  · rintro ⟨rfl, rfl⟩
    decide

end Hex

/-- What one iteration of `Decode_` reads. -/
inductive Piece
  | plain (c : UInt8) (h : c ≠ 37 ∧ c ≠ 43)
  | plus
  | escape (a b : UInt8) (h : strToBin a b ≠ 37)
  | double (a b : UInt8)

namespace Piece

def text : Piece → Bytes
  | plain c _ => [c]
  | plus => [43]
  | escape a b _ => [37, a, b]
  | double a b => [37, 50, 53, a, b]

def value : Piece → UInt8
  | plain c _ => c
  | plus => 32
  | escape a b _ => strToBin a b
  | double a b => strToBin a b

/-- The piece asks for another pass. -/
def again : Piece → Bool
  | plain _ _ => false
  | plus => false
  | escape _ _ _ => false
  | double a b => strToBin a b = 37

theorem text_length_pos (p : Piece) : 0 < p.text.length := by
  cases p <;> exact Nat.succ_pos _

end Piece

/-- The string is read as these pieces; behind its end follow zero bytes. -/
inductive Reads : Bytes → List Piece → Prop
  | nil : Reads [] []
  | cons {s : Bytes} {p : Piece} {ps : List Piece} (hs : s ≠ [])
      (hp : p.text <+: s ++ List.replicate 4 0) (h : Reads (s.drop p.text.length) ps) :
      Reads s (p :: ps)

section CharAt
variable {s t : Bytes} {k n : ℕ}

theorem charAt_drop : charAt s (n + k) = charAt (s.drop n) k := by
  simp [charAt]

theorem charAt_append_replicate : charAt (s ++ List.replicate n 0) k = charAt s k := by
  simp only [charAt, List.getD_eq_getElem?_getD, List.getElem?_append, List.getElem?_replicate]
  split_ifs with h hn
  · rfl
  · rw [List.getElem?_eq_none (not_lt.mp h)]
    rfl
  · rw [List.getElem?_eq_none (not_lt.mp h)]

theorem charAt_of_prefix {c : UInt8} (h : t <+: s ++ List.replicate n 0) (hk : t[k]? = some c) :
    charAt s k = c := by
  obtain ⟨r, hr⟩ := h
  obtain ⟨hlt, -⟩ := List.getElem?_eq_some_iff.mp hk
  rw [← charAt_append_replicate, ← hr, charAt, List.getD_eq_getElem?_getD,
    List.getElem?_append_left hlt, hk, Option.getD_some]

end CharAt

section Iterate
variable {str : Bytes} {p : Pass} {q : Piece} {ps : List Piece} {fuel : ℕ}

/-- The pass behind a piece. -/
def Pass.after (p : Pass) (q : Piece) : Pass :=
  { i := p.i + q.text.length
    result := p.result ++ [q.value]
    ret := p.ret || q.again
    reads := p.reads ++ List.range' p.i q.text.length }

/-- One iteration reads one piece. -/
theorem Pass.iterate_eq_after (h : q.text <+: str.drop p.i ++ List.replicate 4 0) :
    p.iterate str = p.after q := by
  have hat : ∀ k c, q.text[k]? = some c → charAt str (p.i + k) = c := fun k c hk => by
    rw [charAt_drop, charAt_of_prefix h hk]
  unfold Pass.iterate
  cases q with
  | plain c hc =>
    have h0 : charAt str p.i = c := hat 0 c rfl
    rw [h0, if_neg hc.1, if_neg hc.2, Pass.after, Piece.again, Bool.or_false]
    rfl
  | plus =>
    have h0 : charAt str p.i = 43 := hat 0 43 rfl
    rw [h0, if_neg (by decide), if_pos rfl, Pass.after, Piece.again, Bool.or_false]
    rfl
  | escape a b hab =>
    have h0 : charAt str p.i = 37 := hat 0 37 rfl
    have h1 : charAt str (p.i + 1) = a := hat 1 a rfl
    have h2 : charAt str (p.i + 2) = b := hat 2 b rfl
    simp only [h0, h1, h2, if_true, if_neg hab]
    rw [Pass.after, Piece.again, Bool.or_false]
    rfl
  | double a b =>
    have h0 : charAt str p.i = 37 := hat 0 37 rfl
    have h1 : charAt str (p.i + 1) = 50 := hat 1 50 rfl
    have h2 : charAt str (p.i + 2) = 53 := hat 2 53 rfl
    have h3 : charAt str (p.i + 3) = a := hat 3 a rfl
    have h4 : charAt str (p.i + 4) = b := hat 4 b rfl
    have hpercent : strToBin 50 53 = 37 := by decide
    simp only [h0, h1, h2, h3, h4, hpercent, if_true]
    rfl

/-- The pass behind several pieces. -/
def Pass.afterAll (p : Pass) (ps : List Piece) : Pass :=
  { i := p.i + (ps.flatMap Piece.text).length
    result := p.result ++ ps.map Piece.value
    ret := p.ret || ps.any Piece.again
    reads := p.reads ++ List.range' p.i (ps.flatMap Piece.text).length }

theorem Pass.after_afterAll : (p.after q).afterAll ps = p.afterAll (q :: ps) := by
  simp [Pass.after, Pass.afterAll, Bool.or_assoc, Nat.add_assoc, List.range'_append_1]

/-- The loop reads the pieces of the string from its position on. -/
theorem Pass.loop_eq_afterAll (h : Reads (str.drop p.i) ps) (hfuel : ps.length ≤ fuel) :
    Pass.loop str fuel p = p.afterAll ps := by
  generalize hd : str.drop p.i = rest at h
  induction h generalizing fuel p with
  | nil =>
    have hend : str.length ≤ p.i := List.drop_eq_nil_iff.mp hd
    cases fuel <;> simp [Pass.loop, Pass.afterAll, not_lt.mpr hend]
  | @cons rest q ps hs hq _ ih =>
    obtain ⟨fuel, rfl⟩ : ∃ n, fuel = n + 1 := ⟨fuel - 1, by simp at hfuel; omega⟩
    subst hd
    have hlt : p.i < str.length := by
      by_contra hge
      exact hs (List.drop_eq_nil_of_le (not_lt.mp hge))
    have hrest : str.drop (p.after q).i = (str.drop p.i).drop q.text.length :=
      List.drop_drop.symm
    rw [Pass.loop, if_pos hlt, Pass.iterate_eq_after hq, ih (by simpa using hfuel) hrest,
      Pass.after_afterAll]

end Iterate

section Reads
variable {s : Bytes} {ps : List Piece}

/-- The piece at the beginning of a string. -/
theorem exists_piece (hs : s ≠ []) : ∃ p : Piece, p.text <+: s ++ List.replicate 4 0 := by
  have hlen : 5 ≤ (s ++ List.replicate 4 0).length := by
    have hpos := List.length_pos_of_ne_nil hs
    rw [List.length_append, List.length_replicate]
    omega
  match s ++ List.replicate 4 0, hlen with
  | c :: a :: b :: a' :: b' :: r, _ =>
    by_cases hc : c = 37
    · subst hc
      by_cases hab : strToBin a b = 37
      · obtain ⟨rfl, rfl⟩ := strToBin_eq_percent_iff.mp hab
        exact ⟨.double a' b', r, rfl⟩
      · exact ⟨.escape a b hab, a' :: b' :: r, rfl⟩
    · by_cases hplus : c = 43
      · subst hplus
        exact ⟨.plus, a :: b :: a' :: b' :: r, rfl⟩
      · exact ⟨.plain c ⟨hc, hplus⟩, a :: b :: a' :: b' :: r, rfl⟩

theorem exists_reads (s : Bytes) : ∃ ps, Reads s ps := by
  induction hn : s.length using Nat.strong_induction_on generalizing s with
  | _ n ih =>
    by_cases hs : s = []
    · exact ⟨[], hs ▸ .nil⟩
    · obtain ⟨p, hp⟩ := exists_piece hs
      have hlt : (s.drop p.text.length).length < n := by
        have hpos := p.text_length_pos
        have hlen := List.length_pos_of_ne_nil hs
        rw [List.length_drop]
        omega
      obtain ⟨ps, hps⟩ := ih _ hlt _ rfl
      exact ⟨p :: ps, .cons hs hp hps⟩

theorem Reads.length_le (h : Reads s ps) : ps.length ≤ s.length := by
  induction h with
  | nil => exact Nat.le_refl _
  | @cons s p ps hs _ _ ih =>
    have hpos := p.text_length_pos
    have hlen := List.length_pos_of_ne_nil hs
    rw [List.length_drop] at ih
    rw [List.length_cons]
    omega

/-- A pass in terms of the pieces that it reads. -/
theorem decodePass_eq (h : Reads s ps) :
    decodePass s = ⟨(ps.flatMap Piece.text).length, ps.map Piece.value, ps.any Piece.again,
      List.range (ps.flatMap Piece.text).length⟩ := by
  have hloop : decodePass s = Pass.afterAll ⟨0, [], false, []⟩ ps :=
    Pass.loop_eq_afterAll h h.length_le
  simp [hloop, Pass.afterAll, List.range_eq_range']

end Reads

end LibWebsocket.Url
