import LibWebsocket.Lib.ByteOrder

/-! Texts as bytes, and the comparison of C strings without regard to case. -/
namespace LibWebsocket.Lib

/-- `tolower` in the C locale. -/
def tolower (c : UInt8) : UInt8 := if 65 ≤ c ∧ c ≤ 90 then c + 32 else c

/-- A string ends at its first zero byte, and at its end. -/
def strncasecmp : Bytes → Bytes → ℕ → ℤ
  | _, _, 0 => 0
  | a, b, n + 1 =>
    let x := tolower (a.headD 0)
    let y := tolower (b.headD 0)
    if x ≠ y then x.toNat - y.toNat
    else if x = 0 then 0
    else strncasecmp a.tail b.tail n

theorem tolower_eq_zero_iff {c : UInt8} : tolower c = 0 ↔ c = 0 := by
  unfold tolower
  split_ifs with h
  · rw [UInt8.le_iff_toNat_le, UInt8.le_iff_toNat_le] at h
    simp only [← UInt8.toNat_inj, UInt8.toNat_add, UInt8.reduceToNat] at h ⊢
    omega
  · rfl

/-- Below the lower-case letters nothing is confused. -/
theorem tolower_inj {c d : UInt8} (hc : c < 97) (hd : d < 97) (h : tolower c = tolower d) :
    c = d := by
  unfold tolower at h
  split_ifs at h <;> grind

theorem map_tolower_inj {a b : Bytes} (ha : ∀ c ∈ a, c < 97) (hb : ∀ c ∈ b, c < 97)
    (h : a.map tolower = b.map tolower) : a = b := by
  induction a generalizing b with
  | nil => simpa using h.symm
  | cons x a ih =>
    cases b with
    | nil => simp at h
    | cons y b =>
      rw [List.map_cons, List.map_cons, List.cons.injEq] at h
      rw [List.forall_mem_cons] at ha hb
      rw [tolower_inj ha.1 hb.1 h.1, ih ha.2 hb.2 h.2]

/-- A string of which at least `n` bytes are compared. -/
theorem strncasecmp_eq_zero_iff {a b : Bytes} {n : ℕ} (hn : n ≤ a.length) (ha : 0 ∉ a) :
    strncasecmp a b n = 0 ↔ (a.take n).map tolower = (b.take n).map tolower := by
  induction n generalizing a b with
  | zero => simp [strncasecmp]
  | succ n ih =>
    match a, b with
    | [], _ => simp at hn
    | x :: a, [] =>
      have hx : tolower x ≠ tolower 0 := fun h =>
        ha (by rw [tolower_eq_zero_iff.mp (show tolower x = 0 from h)]; exact List.mem_cons_self)
      have hdiff : ((tolower x).toNat : ℤ) - (tolower 0).toNat ≠ 0 := fun h =>
        hx (UInt8.toNat_inj.mp (by omega))
      simp [strncasecmp, hx, hdiff]
    | x :: a, y :: b =>
      have hx : tolower x ≠ 0 := fun h => ha (by simp [tolower_eq_zero_iff.mp h])
      have hrest := ih (a := a) (b := b) (by simpa using hn) fun h => ha (List.mem_cons_of_mem x h)
      rw [strncasecmp]
      by_cases hxy : tolower x = tolower y
      · simp [hxy, hxy ▸ hx, hrest]
      · have hdiff : ((tolower x).toNat : ℤ) - (tolower y).toNat ≠ 0 := fun h =>
          hxy (UInt8.toNat_inj.mp (by omega))
        simp [hxy, hdiff]

/-- Only a character without case is compared equal to itself alone. -/
theorem tolower_eq_iff {c d : UInt8} (hd : d.toNat < 65) : tolower c = d ↔ c = d := by
  unfold tolower
  split_ifs with h
  · rw [UInt8.le_iff_toNat_le, UInt8.le_iff_toNat_le] at h
    simp only [← UInt8.toNat_inj, UInt8.toNat_add, UInt8.reduceToNat] at h ⊢
    omega
  · rfl

/-- Compared with a text that has no letter, a string is equal if it starts with the text. -/
theorem strncasecmp_length_eq_zero_iff {a b : Bytes}
    (hb : b.all fun c => 0 < c.toNat ∧ c.toNat < 65) :
    strncasecmp a b b.length = 0 ↔ b <+: a := by
  induction b generalizing a with
  | nil => simp [strncasecmp]
  | cons y b ih =>
    rw [List.all_cons, Bool.and_eq_true, decide_eq_true_iff] at hb
    obtain ⟨⟨hpos, hcase⟩, hrest⟩ := hb
    have hzero : y ≠ 0 := by
      rintro rfl
      exact Nat.lt_irrefl 0 hpos
    have hy : tolower y = y := (tolower_eq_iff hcase).mpr rfl
    have hhead : tolower (a.headD 0) = y ↔ a.headD 0 = y := tolower_eq_iff hcase
    rw [List.length_cons, strncasecmp, List.headD_cons, List.tail_cons, hy]
    by_cases h : a.headD 0 = y
    · have hx := hhead.mpr h
      rw [if_neg (not_not.mpr hx), if_neg (by rw [hx]; exact hzero), ih hrest]
      cases a with
      | nil => exact absurd h.symm hzero
      | cons x a =>
        obtain rfl : x = y := h
        simp [List.cons_prefix_cons]
    · have hx : tolower (a.headD 0) ≠ y := fun he => h (hhead.mp he)
      have hdiff : ((tolower (a.headD 0)).toNat : ℤ) - y.toNat ≠ 0 := fun he =>
        hx (UInt8.toNat_inj.mp (by omega))
      rw [if_pos hx]
      refine iff_of_false hdiff fun hpre => ?_
      cases a with
      | nil => simp at hpre
      | cons x a => exact h (List.cons_prefix_cons.mp hpre).1.symm

end LibWebsocket.Lib
