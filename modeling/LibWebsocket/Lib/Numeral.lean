import LibWebsocket.Lib.ByteOrder
import Mathlib.Data.Nat.Digits.Lemmas

/-! Numbers as texts. The digits are written by a loop that ends when nothing is left, so zero has
one digit, and are then reversed. -/
namespace LibWebsocket.Lib

/-- The digits in the order in which the loop writes them. -/
def lastFirst (b : ℕ) : ℕ → ℕ → List ℕ
  | 0, _ => []
  | fuel + 1, i => i % b :: if i / b = 0 then [] else lastFirst b fuel (i / b)

variable {α : Type*} {b m n fuel k : ℕ} {digit : ℕ → α} {val : α → ℕ}

theorem ofDigits_lastFirst (hb : 1 < b) (h : n < fuel) :
    Nat.ofDigits b (lastFirst b fuel n) = n := by
  induction fuel generalizing n with
  | zero => cases h
  | succ fuel ih =>
    rw [lastFirst, Nat.ofDigits_cons]
    split_ifs with hdiv
    · have := Nat.mod_add_div n b
      rwa [hdiv] at this
    · have hpos : 0 < n := Nat.pos_of_ne_zero fun h0 => hdiv (by rw [h0, Nat.zero_div])
      have hlt := Nat.div_lt_self hpos hb
      rw [ih (by omega)]
      exact Nat.mod_add_div n b

theorem lt_of_mem_lastFirst (hb : 0 < b) {d : ℕ} (h : d ∈ lastFirst b fuel n) : d < b := by
  induction fuel generalizing n with
  | zero => cases h
  | succ fuel ih =>
    rw [lastFirst] at h
    rcases List.mem_cons.mp h with rfl | h
    · exact Nat.mod_lt n hb
    · split_ifs at h
      · cases h
      · exact ih h

theorem length_lastFirst_le (h : n < b ^ (k + 1)) : (lastFirst b fuel n).length ≤ k + 1 := by
  induction fuel generalizing n k with
  | zero => exact Nat.zero_le _
  | succ fuel ih =>
    rw [lastFirst, List.length_cons]
    split_ifs with hdiv
    · exact Nat.le_add_left ..
    · cases k with
      | zero =>
        rw [Nat.zero_add, Nat.pow_one] at h
        exact absurd (Nat.div_eq_of_lt h) hdiv
      | succ k =>
        rw [Nat.pow_succ] at h
        have := ih (Nat.div_lt_of_lt_mul (Nat.mul_comm .. ▸ h))
        omega

/-- The text of a number, given the texts of the digits. -/
def numeral (digit : ℕ → α) (b n : ℕ) : List α := ((lastFirst b (n + 1) n).map digit).reverse

/-- The number that a text stands for, given the values of its digits. -/
def numeralValue (val : α → ℕ) (b : ℕ) (text : List α) : ℕ :=
  Nat.ofDigits b (text.reverse.map val)

theorem numeralValue_numeral (hb : 1 < b) (hval : ∀ d < b, val (digit d) = d) (n : ℕ) :
    numeralValue val b (numeral digit b n) = n := by
  have hmap : ((lastFirst b (n + 1) n).map digit).map val = lastFirst b (n + 1) n := by
    rw [List.map_map]
    refine (List.map_congr_left fun d hd => ?_).trans (List.map_id _)
    exact hval d (lt_of_mem_lastFirst (Nat.zero_lt_of_lt hb) hd)
  rw [numeralValue, numeral, List.reverse_reverse, hmap, ofDigits_lastFirst hb (Nat.lt_succ_self n)]

theorem numeral_inj (hb : 1 < b) (hval : ∀ d < b, val (digit d) = d)
    (h : numeral digit b m = numeral digit b n) : m = n := by
  rw [← numeralValue_numeral hb hval m, h, numeralValue_numeral hb hval]

theorem length_numeral_le (h : n < b ^ (k + 1)) : (numeral digit b n).length ≤ k + 1 := by
  rw [numeral, List.length_reverse, List.length_map]
  exact length_lastFirst_le h

/-- The character of a decimal digit. -/
def decimalDigit (d : ℕ) : UInt8 := UInt8.ofNat (48 + d)

def decimalValue (c : UInt8) : ℕ := c.toNat - 48

theorem decimalValue_decimalDigit {d : ℕ} (h : d < 10) : decimalValue (decimalDigit d) = d := by
  have hlt : 48 + d < UInt8.size := by
    rw [UInt8.size]
    omega
  rw [decimalValue, decimalDigit, UInt8.toNat_ofNat_of_lt' hlt, Nat.add_sub_cancel_left]

end LibWebsocket.Lib
