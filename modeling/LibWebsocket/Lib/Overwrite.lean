import Mathlib.Tactic.Common

/-! A part of a list replaced by another list of the same length. -/
namespace LibWebsocket.Lib

variable {α : Type*} {l xs : List α} {i : ℕ}

/-- The list with `xs` written over it from position `i` on. -/
def overwrite (l : List α) (i : ℕ) (xs : List α) : List α :=
  l.take i ++ xs ++ l.drop (i + xs.length)

theorem length_overwrite (h : i + xs.length ≤ l.length) :
    (overwrite l i xs).length = l.length := by
  simp only [overwrite, List.length_append, List.length_take, List.length_drop]
  omega

theorem take_overwrite (h : i ≤ l.length) :
    (overwrite l i xs).take (i + xs.length) = l.take i ++ xs := by
  have hlen : (l.take i ++ xs).length = i + xs.length := by
    rw [List.length_append, List.length_take, Nat.min_eq_left h]
  exact List.take_left' hlen

end LibWebsocket.Lib
