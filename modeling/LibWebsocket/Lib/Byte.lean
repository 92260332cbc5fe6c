import Mathlib.Tactic.Common

/-! Properties of a byte that are checked on its 256 values, or on its bits. -/
namespace LibWebsocket.Lib

theorem forall_byte {P : UInt8 → Prop} (h : ∀ n < 256, P (.ofNat n)) (c : UInt8) : P c := by
  have hc := h c.toNat c.toNat_lt
  rwa [UInt8.ofNat_toNat] at hc

/-- A byte is the exclusive or of its bits. -/
theorem eq_foldr_bits : ∀ x : UInt8, x = (List.range 8).foldr
    (fun i y => (if x.toNat.testBit i then 1 <<< UInt8.ofNat i else 0) ^^^ y) 0 :=
  forall_byte (by decide +kernel)

/-- What exclusive or respects is checked on the single bits. -/
theorem byte_induction {P : UInt8 → Prop} (zero : P 0) (xor : ∀ x y, P x → P y → P (x ^^^ y))
    (bit : ∀ i < 8, P (1 <<< UInt8.ofNat i)) (x : UInt8) : P x := by
  rw [eq_foldr_bits x]
  refine List.foldrRecOn (motive := P) _ _ zero fun y hy i hi => xor _ _ ?_ hy
  split
  · exact bit i (List.mem_range.mp hi)
  · exact zero

theorem xor_xor_cancel (x y : UInt8) : x ^^^ y ^^^ y = x := by
  rw [UInt8.xor_assoc, UInt8.xor_self, UInt8.xor_zero]

theorem xor_eq_iff_eq_xor {x y z : UInt8} : x ^^^ y = z ↔ x = z ^^^ y := by
  constructor
  · rintro rfl
    rw [xor_xor_cancel]
  · rintro rfl
    rw [xor_xor_cancel]

end LibWebsocket.Lib
