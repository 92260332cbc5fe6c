import LibWebsocket.Lib.Byte

/-! Four values, and the square arrays that they form; columns of bytes under exclusive or. -/
namespace LibWebsocket.Lib

/-- Four values in order. -/
@[ext]
structure Quad (α : Type*) where
  x0 : α
  x1 : α
  x2 : α
  x3 : α
deriving DecidableEq, Repr

namespace Quad
variable {α β : Type*}

def ofFn (f : ℕ → α) : Quad α := ⟨f 0, f 1, f 2, f 3⟩

def toList (q : Quad α) : List α := [q.x0, q.x1, q.x2, q.x3]

def map (f : α → β) (q : Quad α) : Quad β := ⟨f q.x0, f q.x1, f q.x2, f q.x3⟩

def mapIdx (f : ℕ → α → β) (q : Quad α) : Quad β := ⟨f 0 q.x0, f 1 q.x1, f 2 q.x2, f 3 q.x3⟩

/-- The first value moves to the end. -/
def rotate (q : Quad α) : Quad α := ⟨q.x1, q.x2, q.x3, q.x0⟩

def transpose (s : Quad (Quad α)) : Quad (Quad α) :=
  ⟨s.map x0, s.map x1, s.map x2, s.map x3⟩

@[simp] theorem transpose_transpose (s : Quad (Quad α)) : s.transpose.transpose = s := rfl

theorem map_map_eq_self {f : α → β} {g : β → α} (h : ∀ x, g (f x) = x) (q : Quad α) :
    (q.map f).map g = q := by
  simp [map, h]

def xor (p q : Quad UInt8) : Quad UInt8 :=
  ⟨p.x0 ^^^ q.x0, p.x1 ^^^ q.x1, p.x2 ^^^ q.x2, p.x3 ^^^ q.x3⟩

/-- The map respects exclusive or. -/
def Additive (f : Quad UInt8 → Quad UInt8) : Prop := ∀ p q, f (p.xor q) = (f p).xor (f q)

theorem Additive.comp {f g : Quad UInt8 → Quad UInt8} (hf : Additive f) (hg : Additive g) :
    Additive (g ∘ f) := fun p q => by
  rw [Function.comp_apply, hf, hg]
  rfl

theorem Additive.map_zero {f : Quad UInt8 → Quad UInt8} (hf : Additive f) :
    f ⟨0, 0, 0, 0⟩ = ⟨0, 0, 0, 0⟩ := by
  have h := hf ⟨0, 0, 0, 0⟩ ⟨0, 0, 0, 0⟩
  simpa [xor] using h

theorem Additive.xor_fixed {f : Quad UInt8 → Quad UInt8} (hf : Additive f) {p q : Quad UInt8}
    (hp : f p = p) (hq : f q = q) : f (p.xor q) = p.xor q := by
  rw [hf, hp, hq]

/-- An additive map is the identity if it leaves each single bit in its place. -/
theorem Additive.eq_self {f : Quad UInt8 → Quad UInt8} (hf : Additive f)
    (h : ∀ i < 8, let x := (1 : UInt8) <<< UInt8.ofNat i
      f ⟨x, 0, 0, 0⟩ = ⟨x, 0, 0, 0⟩ ∧ f ⟨0, x, 0, 0⟩ = ⟨0, x, 0, 0⟩ ∧
      f ⟨0, 0, x, 0⟩ = ⟨0, 0, x, 0⟩ ∧ f ⟨0, 0, 0, x⟩ = ⟨0, 0, 0, x⟩) (q : Quad UInt8) : f q = q := by
  have h0 : ∀ x, f ⟨x, 0, 0, 0⟩ = ⟨x, 0, 0, 0⟩ :=
    byte_induction hf.map_zero (fun x y hx hy => by simpa [xor] using hf.xor_fixed hx hy)
      fun i hi => (h i hi).1
  have h1 : ∀ x, f ⟨0, x, 0, 0⟩ = ⟨0, x, 0, 0⟩ :=
    byte_induction hf.map_zero (fun x y hx hy => by simpa [xor] using hf.xor_fixed hx hy)
      fun i hi => (h i hi).2.1
  have h2 : ∀ x, f ⟨0, 0, x, 0⟩ = ⟨0, 0, x, 0⟩ :=
    byte_induction hf.map_zero (fun x y hx hy => by simpa [xor] using hf.xor_fixed hx hy)
      fun i hi => (h i hi).2.2.1
  have h3 : ∀ x, f ⟨0, 0, 0, x⟩ = ⟨0, 0, 0, x⟩ :=
    byte_induction hf.map_zero (fun x y hx hy => by simpa [xor] using hf.xor_fixed hx hy)
      fun i hi => (h i hi).2.2.2
  have hq := hf.xor_fixed (hf.xor_fixed (h0 q.x0) (h1 q.x1)) (hf.xor_fixed (h2 q.x2) (h3 q.x3))
  simpa [xor] using hq

end Quad

end LibWebsocket.Lib
