import Mathlib.Data.List.Basic
import Mathlib.Tactic.Common

/-! Timing wheels. A wheel is a list of buckets, the newest in front. An element is touched by
putting it into the newest bucket, and stays in the older ones it is in; a tick puts an empty
bucket in front and drops the oldest. -/
namespace LibWebsocket.Lib.TimingWheel

variable {α : Type*} [DecidableEq α] {w : List (List α)} {a c : α} {age : Option ℕ}

def touch (a : α) : List (List α) → List (List α)
  | [] => []
  | b :: bs => b.insert a :: bs

def tick (w : List (List α)) : List (List α) := [] :: w.dropLast

/-- The ticks since the last touch of `a` are `age`: a bucket that has `a` is at least that old,
and the bucket of that age, if there is one, has it. -/
structure Tracks (w : List (List α)) (a : α) (age : Option ℕ) : Prop where
  sound : ∀ i b, w[i]? = some b → a ∈ b → ∃ k ≤ i, age = some k
  complete : ∀ k, age = some k → k < w.length → ∃ b, w[k]? = some b ∧ a ∈ b

omit [DecidableEq α] in
theorem tracks_of_empty (h : ∀ b ∈ w, b = []) : Tracks w a none where
  sound i b hb ha := by
    rw [h b (List.mem_of_getElem? hb)] at ha
    cases ha
  complete _ h := nomatch h

namespace Tracks

omit [DecidableEq α] in
/-- An element is in the wheel as long as its age is less than the number of buckets. -/
theorem mem_iff (h : Tracks w a age) : (∃ b ∈ w, a ∈ b) ↔ ∃ k < w.length, age = some k := by
  constructor
  · rintro ⟨b, hb, ha⟩
    obtain ⟨i, hi, hget⟩ := List.mem_iff_getElem.mp hb
    obtain ⟨k, hk, hage⟩ := h.sound i b (by rw [List.getElem?_eq_getElem hi, hget]) ha
    exact ⟨k, Nat.lt_of_le_of_lt hk hi, hage⟩
  · rintro ⟨k, hk, hage⟩
    obtain ⟨b, hb, ha⟩ := h.complete k hage hk
    exact ⟨b, List.mem_of_getElem? hb, ha⟩

theorem touch_self : Tracks (touch a w) a (some 0) where
  sound _ _ _ _ := ⟨0, Nat.zero_le _, rfl⟩
  complete k hk hlt := by
    cases hk
    cases w with
    | nil => cases hlt
    | cons b bs => exact ⟨b.insert a, rfl, List.mem_insert_self⟩

theorem touch_other (h : Tracks w a age) (hne : c ≠ a) : Tracks (touch c w) a age := by
  cases w with
  | nil => exact h
  | cons b bs =>
    have hmem : a ∈ b.insert c ↔ a ∈ b := by
      rw [List.mem_insert_iff]
      exact or_iff_right hne.symm
    constructor
    · intro i b' hb' ha
      cases i with
      | zero =>
        cases hb'
        exact h.sound 0 b rfl (hmem.mp ha)
      | succ i => exact h.sound (i + 1) b' hb' ha
    · intro k hk hlt
      obtain ⟨b', hb', ha⟩ := h.complete k hk hlt
      cases k with
      | zero =>
        cases hb'
        exact ⟨b.insert c, rfl, hmem.mpr ha⟩
      | succ k => exact ⟨b', hb', ha⟩

omit [DecidableEq α] in
theorem tick (h : Tracks w a age) : Tracks (tick w) a (age.map (· + 1)) where
  sound i b hb ha := by
    cases i with
    | zero =>
      cases hb
      cases ha
    | succ i =>
      rw [TimingWheel.tick, List.getElem?_cons_succ, List.getElem?_dropLast] at hb
      split_ifs at hb
      obtain ⟨k, hk, hage⟩ := h.sound i b hb ha
      exact ⟨k + 1, by omega, by rw [hage]; rfl⟩
  complete k hk hlt := by
    obtain ⟨j, hj, rfl⟩ := Option.map_eq_some_iff.mp hk
    rw [TimingWheel.tick, List.length_cons, List.length_dropLast] at hlt
    obtain ⟨b, hb, ha⟩ := h.complete j hj (by omega)
    refine ⟨b, ?_, ha⟩
    rw [TimingWheel.tick, List.getElem?_cons_succ, List.getElem?_dropLast, if_pos (by omega), hb]

end Tracks

end LibWebsocket.Lib.TimingWheel
