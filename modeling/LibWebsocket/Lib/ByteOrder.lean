import Mathlib.Algebra.Order.Ring.Nat
import Mathlib.Tactic.Ring

/-! Fixed-width naturals as byte strings in either byte order, and the byte swap
between the two. -/
namespace LibWebsocket.Lib

abbrev Bytes := List UInt8

/-- The `k` low bytes of `n`, least significant first. -/
def leBytes : ℕ → ℕ → Bytes
  | 0, _ => []
  | k + 1, n => UInt8.ofNat n :: leBytes k (n / 256)

def leNat : Bytes → ℕ
  | [] => 0
  | b :: bs => b.toNat + 256 * leNat bs

def beBytes (k n : ℕ) : Bytes := (leBytes k n).reverse

def beNat (bs : Bytes) : ℕ := leNat bs.reverse

/-- Reverse the `k` bytes of a `k`-byte number. -/
def byteSwap (k n : ℕ) : ℕ := leNat (beBytes k n)

@[simp] theorem length_leBytes (k n : ℕ) : (leBytes k n).length = k := by
  induction k generalizing n with
  | zero => rfl
  | succ k ih => simp [leBytes, ih]

@[simp] theorem length_beBytes (k n : ℕ) : (beBytes k n).length = k := by
  simp [beBytes]

theorem leNat_leBytes (k n : ℕ) : leNat (leBytes k n) = n % 256 ^ k := by
  induction k generalizing n with
  | zero => simp [leBytes, leNat, Nat.mod_one]
  | succ k ih =>
    have hb : (UInt8.ofNat n).toNat = n % 256 := by simp
    rw [leBytes, leNat, ih, hb, pow_succ, mul_comm (256 ^ k) 256, Nat.mod_mul]

theorem leNat_lt (bs : Bytes) : leNat bs < 256 ^ bs.length := by
  induction bs with
  | nil => simp [leNat]
  | cons b bs ih =>
    have hb := b.toNat_lt
    simp only [leNat, List.length_cons, pow_succ]
    omega

theorem leBytes_leNat (bs : Bytes) : leBytes bs.length (leNat bs) = bs := by
  induction bs with
  | nil => rfl
  | cons b bs ih =>
    have hb := b.toNat_lt
    have hhead : UInt8.ofNat (b.toNat + 256 * leNat bs) = b := by
      apply UInt8.toNat_inj.mp
      rw [UInt8.toNat_ofNat']
      omega
    have htail : (b.toNat + 256 * leNat bs) / 256 = leNat bs := by omega
    simp only [List.length_cons, leNat, leBytes, hhead, htail, ih]

theorem leNat_inj {as bs : Bytes} (hl : as.length = bs.length) (h : leNat as = leNat bs) :
    as = bs := by
  rw [← leBytes_leNat as, ← leBytes_leNat bs, hl, h]

theorem beNat_beBytes (k n : ℕ) : beNat (beBytes k n) = n % 256 ^ k := by
  simp [beNat, beBytes, leNat_leBytes]

theorem beNat_lt (bs : Bytes) : beNat bs < 256 ^ bs.length := by
  simpa [beNat] using leNat_lt bs.reverse

theorem beNat_take_lt {q : Bytes} {k m : ℕ} (h : k ≤ q.length) (hm : m = 8 * k) :
    beNat (q.take k) < 2 ^ m := by
  have hlt := beNat_lt (q.take k)
  rwa [List.length_take_of_le h, show 256 = 2 ^ 8 by norm_num, ← pow_mul, ← hm] at hlt

theorem byteSwap_lt (k n : ℕ) : byteSwap k n < 256 ^ k := by
  simpa [byteSwap] using leNat_lt (beBytes k n)

theorem leNat_append (as bs : Bytes) :
    leNat (as ++ bs) = leNat as + 256 ^ as.length * leNat bs := by
  induction as with
  | nil => simp [leNat]
  | cons a as ih =>
    simp only [List.cons_append, leNat, ih, List.length_cons, pow_succ]
    ring

theorem leBytes_add (j k n : ℕ) :
    leBytes (j + k) n = leBytes j n ++ leBytes k (n / 256 ^ j) := by
  induction j generalizing n with
  | zero => simp [leBytes]
  | succ j ih =>
    rw [Nat.add_right_comm, leBytes, leBytes, ih, Nat.div_div_eq_div_mul, pow_succ',
      List.cons_append]

/-- The high bytes of a number become the low bytes of the swapped one. -/
theorem byteSwap_add (j k n : ℕ) :
    byteSwap (j + k) n = byteSwap k (n / 256 ^ j) + 256 ^ k * byteSwap j n := by
  rw [byteSwap, beBytes, leBytes_add, List.reverse_append, leNat_append]
  simp [byteSwap, beBytes]

theorem byteSwap_eq_iff (k n m : ℕ) :
    byteSwap k n = byteSwap k m ↔ n % 256 ^ k = m % 256 ^ k := by
  constructor
  · intro h
    have hbytes : beBytes k n = beBytes k m := leNat_inj (by simp) h
    rw [← beNat_beBytes, hbytes, beNat_beBytes]
  · intro h
    have hbytes : leBytes k n = leBytes k m :=
      leNat_inj (by simp) (by rw [leNat_leBytes, leNat_leBytes, h])
    rw [byteSwap, byteSwap, beBytes, beBytes, hbytes]

/-- Storing a swapped number in one byte order stores the number in the other. -/
theorem leBytes_byteSwap (k n : ℕ) : leBytes k (byteSwap k n) = beBytes k n := by
  have h := leBytes_leNat (beBytes k n)
  rwa [length_beBytes] at h

/-- Loading in one byte order and swapping loads in the other. -/
theorem byteSwap_leNat (bs : Bytes) : byteSwap bs.length (leNat bs) = beNat bs := by
  rw [byteSwap, beBytes, leBytes_leNat, beNat]

end LibWebsocket.Lib
