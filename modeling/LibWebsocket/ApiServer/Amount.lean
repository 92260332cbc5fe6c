import Mathlib.Data.List.TakeWhile
import Mathlib.Data.Rat.Floor
import Mathlib.Tactic.Positivity
import LibWebsocket.ApiServer.Query

/-! Amounts of money as the requests write them, and their hundredths. -/
namespace LibWebsocket.ApiServer
open Lib Http

/-- A decimal number without sign, as `IsDigitalStr` accepts it. -/
structure Amount where
  whole : Bytes
  fraction : Option Bytes
  whole_ne : whole ≠ []
  whole_digits : whole.all isdigit
  fraction_ne : ∀ f ∈ fraction, f ≠ []
  fraction_digits : ∀ f ∈ fraction, f.all isdigit

namespace Amount

def text (a : Amount) : Bytes := a.whole ++ a.fraction.elim [] (46 :: ·)

def value (a : Amount) : ℚ :=
  digits a.whole + a.fraction.elim 0 fun f => (digits f : ℚ) / 10 ^ f.length

end Amount

section Digits
variable {s t : Bytes} {c : UInt8}

theorem isdigit_iff : isdigit c ↔ 48 ≤ c.toNat ∧ c.toNat ≤ 57 := by
  simp [isdigit, UInt8.le_iff_toNat_le]

theorem digits_append : digits (s ++ t) = digits s * 10 ^ t.length + digits t := by
  induction t using List.reverseRecOn with
  | nil => simp [digits]
  | append_singleton t c ih =>
    have hs : digits (s ++ (t ++ [c])) = 10 * digits (s ++ t) + (c.toNat - 48) := by
      simp [digits, List.foldl_append]
    have ht : digits (t ++ [c]) = 10 * digits t + (c.toNat - 48) := by
      simp [digits, List.foldl_append]
    rw [hs, ht, ih, List.length_append, List.length_singleton, pow_succ]
    ring

theorem digits_lt (h : s.all isdigit) : digits s < 10 ^ s.length := by
  induction s using List.reverseRecOn with
  | nil => decide
  | append_singleton s c ih =>
    rw [List.all_append, Bool.and_eq_true] at h
    have hc := isdigit_iff.mp (by simpa using h.2)
    have hs := ih h.1
    rw [digits_append, List.length_append, List.length_singleton, pow_succ]
    simp only [digits, List.foldl_cons, List.foldl_nil] at hs ⊢
    omega

/-- Digits alone are read as the number they write. -/
theorem atol_eq_digits (h : s.all isdigit) (hlen : s.length ≤ 18) : atol s = digits s := by
  have hlt : digits s < 2 ^ 63 - 1 :=
    (digits_lt h).trans_le ((Nat.pow_le_pow_right (by decide) hlen).trans (by decide))
  have hspace : s.dropWhile HttpRequest.isspace = s := by
    cases s with
    | nil => rfl
    | cons c s =>
      have hc := isdigit_iff.mp (List.all_eq_true.mp h c List.mem_cons_self)
      refine List.dropWhile_cons_of_neg ?_
      simp only [HttpRequest.isspace, decide_eq_true_eq, UInt8.le_iff_toNat_le,
        ← UInt8.toNat_inj, UInt8.reduceToNat]
      omega
  have htake : s.takeWhile isdigit = s := List.takeWhile_eq_self_iff.mpr (List.all_eq_true.mp h)
  rw [atol, hspace]
  split
  · simp [isdigit] at h
  · simp [isdigit] at h
  · rw [htake]
    omega

end Digits

section Hundredths
variable {w f : Bytes}

/-- The digits that the code puts behind the whole part. -/
def cents (f : Bytes) : Bytes := if 2 ≤ f.length then f.take 2 else f.take 1 ++ [48]

theorem length_cents (hne : f ≠ []) : (cents f).length = 2 := by
  have hpos := List.length_pos_of_ne_nil hne
  unfold cents
  split_ifs with h
  · rw [List.length_take]
    omega
  · rw [List.length_append, List.length_take, List.length_singleton]
    omega

theorem all_isdigit_cents (h : f.all isdigit) : (cents f).all isdigit := by
  have htake : ∀ n, (f.take n).all isdigit := fun n =>
    List.all_eq_true.mpr fun c hc => List.all_eq_true.mp h c (List.mem_of_mem_take hc)
  unfold cents
  split_ifs
  · exact htake 2
  · rw [List.all_append, htake 1]
    rfl

/-- Two digits behind the point are the whole part of a hundred times the fraction. -/
theorem div_fraction (hne : f ≠ []) (h : f.all isdigit) :
    100 * digits f / 10 ^ f.length = digits (cents f) := by
  unfold cents
  split_ifs with hlen
  · -- The digits behind the first two do not reach a hundredth.
    have hrest : digits (f.drop 2) < 10 ^ (f.drop 2).length := by
      refine digits_lt (List.all_eq_true.mpr fun c hc => ?_)
      exact List.all_eq_true.mp h c (List.mem_of_mem_drop hc)
    have hsplit : digits f =
        digits (f.take 2) * 10 ^ (f.drop 2).length + digits (f.drop 2) := by
      rw [← digits_append, List.take_append_drop]
    have hpow : 10 ^ f.length = 100 * 10 ^ (f.drop 2).length := by
      rw [List.length_drop, ← Nat.sub_add_cancel hlen, Nat.add_sub_cancel, pow_add]
      ring
    rw [hpow, Nat.mul_div_mul_left _ _ (by decide), hsplit, Nat.mul_comm,
      Nat.mul_add_div (by positivity), Nat.div_eq_of_lt hrest, Nat.add_zero]
  · have hone : f.length = 1 := by
      have hpos := List.length_pos_of_ne_nil hne
      omega
    have htake : f.take 1 = f := List.take_of_length_le hone.le
    have hzero : digits [48] = 0 := rfl
    rw [htake, digits_append, hone, hzero, List.length_singleton]
    omega

end Hundredths

namespace Amount
variable (a : Amount)

theorem floor_value :
    ⌊100 * a.value⌋ = 100 * digits a.whole + (a.fraction.elim 0 fun f => digits (cents f) : ℕ) := by
  unfold value
  cases hf : a.fraction with
  | none =>
    have hval : 100 * ((digits a.whole : ℚ) + 0) = ((100 * digits a.whole : ℕ) : ℚ) := by
      push_cast
      ring
    rw [Option.elim_none, Option.elim_none, hval, Int.floor_natCast]
    simp
  | some f =>
    have hval : 100 * ((digits a.whole : ℚ) + digits f / 10 ^ f.length) =
        ((100 * digits f : ℕ) : ℚ) / ((10 ^ f.length : ℕ) : ℚ) + ((100 * digits a.whole : ℕ) : ℚ) := by
      push_cast
      ring
    rw [Option.elim_some, Option.elim_some, hval, Int.floor_add_natCast,
      Rat.floor_natCast_div_natCast, ← Int.natCast_ediv,
      div_fraction (a.fraction_ne f hf) (a.fraction_digits f hf)]
    push_cast
    ring

theorem dot_notMem {s : Bytes} (h : s.all isdigit) : 46 ∉ s := by
  intro hm
  have hdot := List.all_eq_true.mp h 46 hm
  revert hdot
  decide

theorem rate100_text :
    rate100 a.text = if a.whole.length ≤ 9 then ⌊100 * a.value⌋ else 0 := by
  have hdot := dot_notMem a.whole_digits
  rw [floor_value, text, rate100]
  cases hf : a.fraction with
  | none =>
    rw [Option.elim_none, List.append_nil, cut_eq_none_iff.mpr hdot, Option.elim_none]
    split_ifs with h
    · rw [atol_eq_digits a.whole_digits (by omega), mul_comm]
      simp
    · rfl
  | some f =>
    have hlen := length_cents (a.fraction_ne f hf)
    have hall : (a.whole ++ cents f).all isdigit := by
      rw [List.all_append, a.whole_digits, all_isdigit_cents (a.fraction_digits f hf)]
      rfl
    have hx : (if 2 ≤ f.length then a.whole ++ f.take 2 else a.whole ++ f.take 1 ++ [48]) =
        a.whole ++ cents f := by
      unfold cents
      split_ifs
      · rfl
      · rw [List.append_assoc]
    rw [Option.elim_some, cut_append_cons hdot, Option.elim_some]
    simp only [hx]
    have hiff : (a.whole ++ cents f).length ≤ 11 ↔ a.whole.length ≤ 9 := by
      rw [List.length_append, hlen]
      omega
    rw [if_congr hiff rfl rfl]
    split_ifs with h
    · have hshort : (a.whole ++ cents f).length ≤ 18 := by
        have := hiff.mpr h
        omega
      rw [atol_eq_digits hall hshort, digits_append, hlen]
      push_cast
      ring
    · rfl

theorem floor_value_bounds (h : a.whole.length ≤ 9) :
    0 ≤ ⌊100 * a.value⌋ ∧ ⌊100 * a.value⌋ < 2 ^ 63 := by
  have hwhole : digits a.whole < 10 ^ 9 :=
    (digits_lt a.whole_digits).trans_le (Nat.pow_le_pow_right (by decide) h)
  have hcents : (a.fraction.elim 0 fun f => digits (cents f)) < 100 := by
    cases hf : a.fraction with
    | none => simp
    | some f =>
      have hlt := digits_lt (all_isdigit_cents (a.fraction_digits f hf))
      rwa [length_cents (a.fraction_ne f hf)] at hlt
  rw [floor_value]
  omega

/-- The hundredths of an amount are cut off, not rounded; with more than nine digits in front of
the point the result is zero, and with fewer no 64-bit number overflows. -/
theorem rate100_truncates :
    rate100 a.text = (if a.whole.length ≤ 9 then ⌊100 * a.value⌋ else 0) ∧
      0 ≤ rate100 a.text ∧ rate100 a.text < 2 ^ 63 ∧
      ∀ b : Amount, a.whole.length ≤ 9 → b.whole.length ≤ 9 → a.value ≤ b.value →
        rate100 a.text ≤ rate100 b.text := by
  have hbounds : 0 ≤ rate100 a.text ∧ rate100 a.text < 2 ^ 63 := by
    rw [rate100_text]
    split_ifs with h
    · exact a.floor_value_bounds h
    · decide
  refine ⟨a.rate100_text, hbounds.1, hbounds.2, fun b ha hb hle => ?_⟩
  rw [rate100_text, rate100_text, if_pos ha, if_pos hb]
  exact Int.floor_le_floor (by linarith)

theorem rate100_truncates_fifty : rate100 (ascii "50") ≤ rate100 (ascii "50.009") := by
  let a : Amount := ⟨ascii "50", none, by decide, by decide, by simp, by simp⟩
  let b : Amount := ⟨ascii "50", some (ascii "009"), by decide, by decide, by decide, by decide⟩
  have hle : a.value ≤ b.value := by
    simp only [value, a, b, Option.elim_none, Option.elim_some]
    gcongr
    positivity
  exact (rate100_truncates a).2.2.2 b (by decide) (by decide) hle

end Amount

/-- The texts of amounts are those that the check on the score admits. -/
theorem isDigitStr_iff {s : Bytes} : isDigitStr s ↔ ∃ a : Amount, a.text = s := by
  constructor
  · intro h
    unfold isDigitStr at h
    cases hcut : cut 46 s with
    | none =>
      simp only [hcut, decide_eq_true_eq] at h
      exact ⟨⟨s, none, h.1, h.2, by simp, by simp⟩, List.append_nil s⟩
    | some p =>
      obtain ⟨w, f⟩ := p
      simp only [hcut, decide_eq_true_eq] at h
      obtain ⟨hw, hwd, hf, hfd⟩ := h
      exact ⟨⟨w, some f, hw, hwd, by simpa using hf, by simpa using hfd⟩, (cut_eq_some hcut).1.symm⟩
  · rintro ⟨a, rfl⟩
    have hdot := Amount.dot_notMem a.whole_digits
    rw [isDigitStr, Amount.text]
    cases hf : a.fraction with
    | none =>
      rw [Option.elim_none, List.append_nil, cut_eq_none_iff.mpr hdot]
      simpa using ⟨a.whole_ne, List.all_eq_true.mp a.whole_digits⟩
    | some f =>
      rw [Option.elim_some, cut_append_cons hdot]
      exact decide_eq_true ⟨a.whole_ne, a.whole_digits, a.fraction_ne f hf, a.fraction_digits f hf⟩

end LibWebsocket.ApiServer
