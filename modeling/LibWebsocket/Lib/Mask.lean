import LibWebsocket.Lib.ByteOrder

/-! XOR masking with a cyclic key. A byte string may be masked from any position of the
key, so that a long string can be masked piece by piece. -/
namespace LibWebsocket.Lib

variable {n : ℕ} [NeZero n]

/-- XOR each byte with the key, read cyclically from position `i` on. -/
def maskFrom (key : Fin n → UInt8) (i : ℕ) : Bytes → Bytes
  | [] => []
  | b :: bs => (b ^^^ key (Fin.ofNat n i)) :: maskFrom key (i + 1) bs

@[simp] theorem maskFrom_nil (key : Fin n → UInt8) (i : ℕ) : maskFrom key i [] = [] := rfl

@[simp] theorem length_maskFrom (key : Fin n → UInt8) (i : ℕ) (bs : Bytes) :
    (maskFrom key i bs).length = bs.length := by
  induction bs generalizing i with
  | nil => rfl
  | cons b bs ih => simp [maskFrom, ih]

/-- Masking twice restores the bytes exactly where the two readings of the key agree. -/
theorem maskFrom_maskFrom_iff (key : Fin n → UInt8) (i j : ℕ) (bs : Bytes) :
    maskFrom key i (maskFrom key j bs) = bs ↔
      ∀ k < bs.length, key (Fin.ofNat n (i + k)) = key (Fin.ofNat n (j + k)) := by
  induction bs generalizing i j with
  | nil => simp
  | cons b bs ih =>
    have hbyte : b ^^^ key (Fin.ofNat n j) ^^^ key (Fin.ofNat n i) = b ↔
        key (Fin.ofNat n i) = key (Fin.ofNat n j) := by
      have hz : b ^^^ key (Fin.ofNat n j) ^^^ key (Fin.ofNat n i) = b ^^^ 0 ↔
          key (Fin.ofNat n j) ^^^ key (Fin.ofNat n i) = 0 := by
        rw [UInt8.xor_assoc, UInt8.xor_right_inj]
      rw [UInt8.xor_zero, UInt8.xor_eq_zero_iff] at hz
      exact hz.trans eq_comm
    simp only [maskFrom, List.cons.injEq, hbyte, ih, List.length_cons]
    constructor
    · rintro ⟨h0, hs⟩ k hk
      cases k with
      | zero => exact h0
      | succ k =>
        have h := hs k (by omega)
        rwa [show i + 1 + k = i + (k + 1) by omega, show j + 1 + k = j + (k + 1) by omega] at h
    · intro h
      refine ⟨h 0 (by omega), fun k hk => ?_⟩
      have hk := h (k + 1) (by omega)
      rwa [show i + (k + 1) = i + 1 + k by omega, show j + (k + 1) = j + 1 + k by omega] at hk

@[simp] theorem maskFrom_maskFrom_self (key : Fin n → UInt8) (i : ℕ) (bs : Bytes) :
    maskFrom key i (maskFrom key i bs) = bs :=
  (maskFrom_maskFrom_iff key i i bs).mpr fun _ _ => rfl

end LibWebsocket.Lib
