import Mathlib.Data.List.Sort

/-! Finite sets over a linear order, kept as increasing lists. -/
namespace LibWebsocket.Lib

/-- A set as its elements in increasing order. -/
structure OrderedSet (α : Type*) [LinearOrder α] where
  elems : List α
  sorted : elems.Pairwise (· < ·)

namespace OrderedSet

variable {α : Type*} [LinearOrder α] {s : OrderedSet α} {a b x : α}

instance membership : Membership α (OrderedSet α) := ⟨fun s a => a ∈ s.elems⟩

instance decidableMem : Decidable (a ∈ s) := inferInstanceAs (Decidable (a ∈ s.elems))

theorem mem_def : a ∈ s ↔ a ∈ s.elems := Iff.rfl

theorem nodup (s : OrderedSet α) : s.elems.Nodup := s.sorted.imp fun h => h.ne

theorem pairwise_orderedInsert (s : OrderedSet α) (h : a ∉ s) :
    (s.elems.orderedInsert (· ≤ ·) a).Pairwise (· < ·) := by
  have hle := (s.sorted.imp fun h => h.le).orderedInsert a
  have hne : (s.elems.orderedInsert (· ≤ ·) a).Nodup :=
    (List.perm_orderedInsert _ a s.elems).nodup_iff.mpr (s.nodup.cons h)
  exact (hle.and hne).imp fun h => lt_of_le_of_ne h.1 h.2

theorem pairwise_dropWhile (s : OrderedSet α) (p : α → Bool) :
    (s.elems.dropWhile p).Pairwise (· < ·) :=
  s.sorted.sublist (List.dropWhile_sublist p)

def empty : OrderedSet α := ⟨[], .nil⟩

def size (s : OrderedSet α) : ℕ := s.elems.length

/-- The least element. -/
def first? (s : OrderedSet α) : Option α := s.elems.head?

def insert (s : OrderedSet α) (a : α) : OrderedSet α :=
  if h : a ∈ s then s else ⟨s.elems.orderedInsert (· ≤ ·) a, s.pairwise_orderedInsert h⟩

def erase (s : OrderedSet α) (a : α) : OrderedSet α :=
  ⟨s.elems.erase a, s.sorted.sublist List.erase_sublist⟩

/-- The elements below `x`, in increasing order. -/
def below (s : OrderedSet α) (x : α) : List α := s.elems.takeWhile (· < x)

/-- The elements that are not below `x`. -/
def notBelow (s : OrderedSet α) (x : α) : OrderedSet α :=
  ⟨s.elems.dropWhile (· < x), s.pairwise_dropWhile _⟩

@[simp] theorem notMem_empty : a ∉ (empty : OrderedSet α) := List.not_mem_nil

@[simp] theorem mem_insert : b ∈ s.insert a ↔ b = a ∨ b ∈ s := by
  unfold insert
  split_ifs with h
  · exact ⟨.inr, fun hb => hb.elim (· ▸ h) id⟩
  · exact List.mem_orderedInsert _

@[simp] theorem mem_erase : b ∈ s.erase a ↔ b ≠ a ∧ b ∈ s := s.nodup.mem_erase_iff

theorem first?_eq_none : s.first? = none ↔ ∀ a, a ∉ s := by
  rw [first?, List.head?_eq_none_iff, List.eq_nil_iff_forall_not_mem]
  rfl

theorem first?_eq_some (h : s.first? = some a) : a ∈ s ∧ ∀ b ∈ s, a ≤ b := by
  obtain ⟨l, hl⟩ := List.head?_eq_some_iff.mp h
  have hsorted := s.sorted
  rw [hl] at hsorted
  constructor
  · rw [mem_def, hl]
    exact List.mem_cons_self
  · intro b hb
    rw [mem_def, hl, List.mem_cons] at hb
    rcases hb with rfl | hb
    · exact le_rfl
    · exact (List.rel_of_pairwise_cons hsorted hb).le

private theorem mem_split (l : List α) (hl : l.Pairwise (· < ·)) :
    (b ∈ l.takeWhile (· < x) ↔ b ∈ l ∧ b < x) ∧ (b ∈ l.dropWhile (· < x) ↔ b ∈ l ∧ x ≤ b) := by
  induction l with
  | nil => simp
  | cons c l ih =>
    obtain ⟨hc, hl⟩ := List.pairwise_cons.mp hl
    by_cases hx : c < x
    · obtain ⟨htake, hdrop⟩ := ih hl
      simp only [List.takeWhile_cons, List.dropWhile_cons, hx, decide_true, if_true,
        List.mem_cons, htake, hdrop]
      constructor
      · constructor
        · rintro (rfl | h)
          · exact ⟨.inl rfl, hx⟩
          · exact ⟨.inr h.1, h.2⟩
        · rintro ⟨rfl | h, hb⟩
          · exact .inl rfl
          · exact .inr ⟨h, hb⟩
      · constructor
        · exact fun h => ⟨.inr h.1, h.2⟩
        · rintro ⟨rfl | h, hb⟩
          · exact absurd hx hb.not_gt
          · exact ⟨h, hb⟩
    · -- From here on every element is at least `x`.
      have hge : ∀ b ∈ c :: l, x ≤ b := by
        intro b hb
        rcases List.mem_cons.mp hb with rfl | hb
        · exact not_lt.mp hx
        · exact (not_lt.mp hx).trans (hc b hb).le
      simp only [List.takeWhile_cons, List.dropWhile_cons, hx, decide_false, Bool.false_eq_true,
        if_false, List.not_mem_nil, false_iff]
      exact ⟨fun h => absurd h.2 (hge b h.1).not_gt, fun h => ⟨h, hge b h⟩, And.left⟩

@[simp] theorem mem_below : b ∈ s.below x ↔ b ∈ s ∧ b < x := (mem_split s.elems s.sorted).1

@[simp] theorem mem_notBelow : b ∈ s.notBelow x ↔ b ∈ s ∧ x ≤ b := (mem_split s.elems s.sorted).2

theorem pairwise_below : (s.below x).Pairwise (· < ·) :=
  s.sorted.sublist (List.takeWhile_sublist _)

/-- Sets that a map carries onto each other one to one have the same size. -/
theorem size_eq_of_map {β : Type*} [LinearOrder β] {t : OrderedSet β} (f : α → β)
    (hinj : ∀ a ∈ s, ∀ b ∈ s, f a = f b → a = b) (hmap : ∀ b, b ∈ t ↔ ∃ a ∈ s, f a = b) :
    s.size = t.size := by
  have hperm : (s.elems.map f).Perm t.elems := by
    refine (List.perm_ext_iff_of_nodup (s.nodup.map_on hinj) t.nodup).mpr fun b => ?_
    rw [List.mem_map]
    exact (hmap b).symm
  rw [size, size, ← hperm.length_eq, List.length_map]

end OrderedSet

end LibWebsocket.Lib
