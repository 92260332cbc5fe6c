import Mathlib.Data.List.Infix
import Mathlib.Data.Nat.Find
import Mathlib.Tactic.Common

/-! The first occurrence of a pattern, and of a single element, in a list. -/
namespace LibWebsocket.Lib

variable {α : Type*} [DecidableEq α] {pat b l r x : List α} {a : α} {n : ℕ}

/-- The offset at which `pat` occurs first. -/
def search (pat : List α) : List α → Option ℕ
  | [] => if pat = [] then some 0 else none
  | b :: bs => if pat <+: b :: bs then some 0 else (search pat bs).map (· + 1)

theorem search_eq_some_iff (hp : pat ≠ []) :
    search pat b = some n ↔ pat <+: b.drop n ∧ ∀ m < n, ¬ pat <+: b.drop m := by
  induction b generalizing n with
  | nil => simp [search, hp]
  | cons c cs ih =>
    rw [search]
    split_ifs with hc
    · constructor
      · intro h
        cases h
        exact ⟨hc, by simp⟩
      · rintro ⟨-, hmin⟩
        cases n with
        | zero => rfl
        | succ n => exact absurd hc (hmin 0 n.succ_pos)
    · cases n with
      | zero => simp [hc]
      | succ n =>
        rw [Option.map_eq_some_iff]
        simp only [Nat.add_right_cancel_iff, exists_eq_right, ih, List.drop_succ_cons]
        refine and_congr_right fun _ => ⟨fun h m hm => ?_, fun h m hm => ?_⟩
        · cases m with
          | zero => exact hc
          | succ m => exact h m (by omega)
        · exact h (m + 1) (by omega)

/-- An occurrence bounds the first one. -/
theorem exists_search_le (hp : pat ≠ []) (h : pat <+: b.drop n) : ∃ m ≤ n, search pat b = some m := by
  have hex : ∃ m, pat <+: b.drop m := ⟨n, h⟩
  refine ⟨Nat.find hex, Nat.find_min' hex h, ?_⟩
  rw [search_eq_some_iff hp]
  exact ⟨Nat.find_spec hex, fun m hm => Nat.find_min hex hm⟩

theorem search_le (hp : pat ≠ []) (h : search pat b = some n) : n + pat.length ≤ b.length := by
  have hlen := ((search_eq_some_iff hp).mp h).1.length_le
  have hpos := List.length_pos_of_ne_nil hp
  rw [List.length_drop] at hlen
  omega

/-- Around the first occurrence. -/
theorem search_split (hp : pat ≠ []) (h : search pat b = some n) :
    b = b.take n ++ pat ++ b.drop (n + pat.length) := by
  obtain ⟨t, ht⟩ := ((search_eq_some_iff hp).mp h).1
  have hdrop : b.drop (n + pat.length) = t := by
    rw [← List.drop_drop, ← ht, List.drop_left]
  rw [hdrop, List.append_assoc, ht, List.take_append_drop]

omit [DecidableEq α] in
theorem prefix_drop_append {m : ℕ} (h : pat <+: (b ++ x).drop m) (hm : m + pat.length ≤ b.length) :
    pat <+: b.drop m := by
  rw [List.drop_append_of_le_length (by omega)] at h
  refine List.prefix_of_prefix_length_le h (List.prefix_append _ x) ?_
  rw [List.length_drop]
  omega

/-- More input does not move an occurrence that was found. -/
theorem search_append (hp : pat ≠ []) (h : search pat b = some n) :
    search pat (b ++ x) = some n := by
  have hle := search_le hp h
  obtain ⟨hn, hmin⟩ := (search_eq_some_iff hp).mp h
  refine (search_eq_some_iff hp).mpr ⟨?_, fun m hm hpre => ?_⟩
  · rw [List.drop_append_of_le_length (by omega)]
    exact hn.trans (List.prefix_append _ x)
  · exact hmin m hm (prefix_drop_append hpre (by omega))

/-- `pat` ends the list and occurs nowhere else in it. -/
def EndsOnce (pat b : List α) : Prop := ∃ n, search pat b = some n ∧ n + pat.length = b.length

instance (pat b : List α) : Decidable (EndsOnce pat b) :=
  decidable_of_iff (search pat b = some (b.length - pat.length) ∧ pat.length ≤ b.length) <| by
    constructor
    · rintro ⟨h, hle⟩
      exact ⟨_, h, by omega⟩
    · rintro ⟨n, h, hn⟩
      refine ⟨?_, by omega⟩
      rw [h, ← hn, Nat.add_sub_cancel]

/-- No proper beginning of a list that ends once in `pat` has `pat` in it. -/
theorem EndsOnce.search_take (hp : pat ≠ []) (h : EndsOnce pat (b ++ x)) (hx : x ≠ []) :
    search pat b = none := by
  obtain ⟨n, hn, hlen⟩ := h
  have hpos := List.length_pos_of_ne_nil hx
  cases hs : search pat b with
  | none => rfl
  | some m =>
    have hle := search_le hp hs
    have hm := search_append (x := x) hp hs
    rw [hn] at hm
    cases hm
    rw [List.length_append] at hlen
    omega

theorem EndsOnce.suffix (hp : pat ≠ []) (h : EndsOnce pat (x ++ b)) (hb : pat.length ≤ b.length) :
    EndsOnce pat b := by
  obtain ⟨n, hn, hlen⟩ := h
  rw [List.length_append] at hlen
  obtain ⟨hocc, hmin⟩ := (search_eq_some_iff hp).mp hn
  obtain ⟨k, rfl⟩ : ∃ k, n = x.length + k := ⟨n - x.length, by omega⟩
  rw [List.drop_append, List.drop_eq_nil_of_le (by omega), List.nil_append,
    Nat.add_sub_cancel_left] at hocc
  refine ⟨k, (search_eq_some_iff hp).mpr ⟨hocc, fun m hm hpre => ?_⟩, by omega⟩
  refine hmin (x.length + m) (by omega) ?_
  rwa [List.drop_append, List.drop_eq_nil_of_le (by omega), List.nil_append,
    Nat.add_sub_cancel_left]

/-- The parts before and behind the first `a`. -/
def cut (a : α) : List α → Option (List α × List α)
  | [] => none
  | b :: bs => if b = a then some ([], bs) else (cut a bs).map fun p => (b :: p.1, p.2)

theorem cut_eq_none_iff : cut a l = none ↔ a ∉ l := by
  induction l with
  | nil => simp [cut]
  | cons b bs ih =>
    rw [cut]
    split_ifs with hb
    · simp [hb]
    · simp [ih, Ne.symm hb]

theorem cut_eq_some (h : cut a l = some (b, r)) : l = b ++ a :: r ∧ a ∉ b := by
  induction l generalizing b with
  | nil => cases h
  | cons c cs ih =>
    rw [cut] at h
    split_ifs at h with hc
    · cases h
      exact ⟨by rw [hc]; rfl, by simp⟩
    · obtain ⟨⟨b', r'⟩, hp, he⟩ := Option.map_eq_some_iff.mp h
      cases he
      obtain ⟨rfl, hb⟩ := ih hp
      exact ⟨rfl, by simp [Ne.symm hc, hb]⟩

theorem mem_of_cut {p : List α × List α} (h : cut a l = some p) : a ∈ l := by
  rw [(cut_eq_some h).1]
  simp

theorem cut_append_cons (h : a ∉ l) : cut a (l ++ a :: r) = some (l, r) := by
  induction l with
  | nil => simp [cut]
  | cons b l ih =>
    rw [List.mem_cons, not_or] at h
    simp [cut, Ne.symm h.1, ih h.2]

/-- The first `a` of the first part is that of the whole. -/
theorem cut_append_of_eq_some (h : cut a l = some (b, x)) : cut a (l ++ r) = some (b, x ++ r) := by
  obtain ⟨rfl, hb⟩ := cut_eq_some h
  rw [List.append_assoc, List.cons_append, cut_append_cons hb]

theorem cut_append_of_notMem (h : a ∉ l) :
    cut a (l ++ r) = (cut a r).map fun p => (l ++ p.1, p.2) := by
  cases hr : cut a r with
  | none =>
    rw [cut_eq_none_iff] at hr
    simpa [cut_eq_none_iff, h] using hr
  | some p =>
    obtain ⟨rfl, hp⟩ := cut_eq_some hr
    rw [← List.append_assoc, cut_append_cons (by simp [h, hp])]
    rfl

omit [DecidableEq α] in
/-- What stands before and behind the first `a` is determined. -/
theorem append_cons_inj {l' r' : List α} (hl : a ∉ l) (hl' : a ∉ l')
    (h : l ++ a :: r = l' ++ a :: r') : l = l' ∧ r = r' := by
  induction l generalizing l' with
  | nil =>
    cases l' with
    | nil => exact ⟨rfl, (List.cons.inj h).2⟩
    | cons c l' => exact absurd ((List.cons.inj h).1 ▸ List.mem_cons_self) hl'
  | cons b l ih =>
    cases l' with
    | nil => exact absurd ((List.cons.inj h).1 ▸ List.mem_cons_self) hl
    | cons c l' =>
      obtain ⟨rfl, htail⟩ := List.cons.inj h
      obtain ⟨rfl, rfl⟩ := ih (fun hm => hl (List.mem_cons_of_mem b hm))
        (fun hm => hl' (List.mem_cons_of_mem b hm)) htail
      exact ⟨rfl, rfl⟩

section Prefix
omit [DecidableEq α]
variable {l' r' : List α}

/-- A beginning that contains `a` agrees with the list up to its first `a`. -/
theorem append_cons_prefix_iff (hl : a ∉ l) (hl' : a ∉ l') :
    l ++ a :: r <+: l' ++ a :: r' ↔ l = l' ∧ r <+: r' := by
  constructor
  · rintro ⟨t, ht⟩
    rw [List.append_assoc, List.cons_append] at ht
    obtain ⟨rfl, rfl⟩ := append_cons_inj hl hl' ht
    exact ⟨rfl, List.prefix_append r t⟩
  · rintro ⟨rfl, t, rfl⟩
    exact ⟨t, by simp⟩

/-- A beginning without `a` that is long enough ends where the first `a` stands. -/
theorem prefix_append_cons_iff (hl : a ∉ l) (hlen : l'.length ≤ l.length) :
    l <+: l' ++ a :: r ↔ l = l' := by
  constructor
  · rintro ⟨t, ht⟩
    rcases List.append_eq_append_iff.mp ht with ⟨s, hs, -⟩ | ⟨s, hs, ht⟩
    · have hprefix : l <+: l' := hs ▸ List.prefix_append l s
      exact hprefix.eq_of_length_le hlen
    · cases s with
      | nil => rw [hs, List.append_nil]
      | cons b s =>
        obtain rfl : a = b := (List.cons.inj ht).1
        exact absurd (by simp [hs]) hl
  · rintro rfl
    exact List.prefix_append l (a :: r)

end Prefix

end LibWebsocket.Lib
