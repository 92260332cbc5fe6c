import Mathlib.Algebra.Order.Ring.Nat
import Mathlib.Data.List.Perm.Basic
import Mathlib.Tactic.Common

/-! A queue behind a mutex with two conditions: a thread that finds it empty waits for an element,
and a thread that finds it full waits for space. An operation is what a thread does while it holds
the mutex. A thread that waits is woken by a notification, or by nothing at all. -/
namespace LibWebsocket.Lib

structure Monitor (α : Type*) where
  items : List α
  /-- The threads that wait for an element, and those of them that have been woken. -/
  asleep : ℕ
  woken : ℕ
  /-- What the threads want to put that wait for space, and those of them that have been woken. -/
  waiting : List α
  ready : List α
  /-- What has been put into the queue and taken from it so far. -/
  pushed : List α
  popped : List α
deriving DecidableEq, Repr

namespace Monitor

variable {α : Type*}

def create : Monitor α := ⟨[], 0, 0, [], [], [], []⟩

def isFull (capacity : Option ℕ) (m : Monitor α) : Bool := capacity.any (· ≤ m.items.length)

/-- Notify a thread that waits for an element. -/
def notifyTaker (m : Monitor α) : Monitor α :=
  { m with asleep := m.asleep - 1, woken := if 0 < m.asleep then m.woken + 1 else m.woken }

/-- Notify all threads that wait for an element. -/
def notifyTakers (m : Monitor α) : Monitor α :=
  { m with asleep := 0, woken := m.woken + m.asleep }

/-- Notify a thread that waits for space; `i` says which. -/
def notifyPutter (i : ℕ) (m : Monitor α) : Monitor α :=
  match m.waiting[i % m.waiting.length]? with
  | none => m
  | some x =>
    { m with waiting := m.waiting.eraseIdx (i % m.waiting.length), ready := m.ready ++ [x] }

/-- Put an element, or wait for space. -/
def put (capacity : Option ℕ) (x : α) (m : Monitor α) : Monitor α :=
  if m.isFull capacity then { m with waiting := m.waiting ++ [x] }
  else notifyTaker { m with items := m.items ++ [x], pushed := m.pushed ++ [x] }

/-- Take the first element, if there is one. -/
def pop (i : ℕ) (m : Monitor α) : Option (α × Monitor α) :=
  match m.items with
  | [] => none
  | x :: rest => some (x, notifyPutter i { m with items := rest, popped := m.popped ++ [x] })

/-- Wait for an element. -/
def sleep (m : Monitor α) : Monitor α := { m with asleep := m.asleep + 1 }

/-- A thread that has been woken holds the mutex again. -/
def takerBack (m : Monitor α) : Option (Monitor α) :=
  if 0 < m.woken then some { m with woken := m.woken - 1 } else none

def putterBack (i : ℕ) (m : Monitor α) : Option (α × Monitor α) :=
  m.ready[i]?.map fun x => (x, { m with ready := m.ready.eraseIdx i })

/-- The elements are taken in the order in which they were put, and there are no more than the
queue may hold. There are threads awake for all that a waiting thread could take, and for all the
space that a waiting thread could use: `a` threads and `b` threads hold the mutex, and count as
awake. -/
structure Alert (capacity : Option ℕ) (a b : ℕ) (m : Monitor α) : Prop where
  order : m.pushed = m.popped ++ m.items
  bound : ∀ n, capacity = some n → m.items.length ≤ n
  takers : 0 < m.asleep → m.items.length ≤ m.woken + a
  putters : m.waiting ≠ [] → ∃ n, capacity = some n ∧ n ≤ m.items.length + m.ready.length + b

variable {capacity : Option ℕ} {m m' : Monitor α} {x : α} {i : ℕ}

theorem alert_create : Alert capacity 0 0 (create : Monitor α) :=
  ⟨rfl, fun _ _ => Nat.zero_le _, fun h => absurd h (Nat.lt_irrefl 0), fun h => absurd rfl h⟩

theorem isFull_iff : m.isFull capacity = true ↔ ∃ n, capacity = some n ∧ n ≤ m.items.length := by
  simp [isFull, Option.any_eq_true]

namespace Alert

theorem taker (h : Alert capacity 0 0 m) : Alert capacity 1 0 m :=
  ⟨h.order, h.bound, fun h' => (h.takers h').trans (Nat.le_succ _), h.putters⟩

theorem putter (h : Alert capacity 0 0 m) : Alert capacity 0 1 m where
  order := h.order
  bound := h.bound
  takers := h.takers
  putters h' := by
    obtain ⟨n, hn, hle⟩ := h.putters h'
    exact ⟨n, hn, hle.trans (Nat.le_succ _)⟩

theorem takerBack (h : Alert capacity 0 0 m) (hback : m.takerBack = some m') :
    Alert capacity 1 0 m' := by
  obtain ⟨hwoken, ⟨⟩⟩ := Option.ite_none_right_eq_some.mp hback
  refine ⟨h.order, h.bound, fun h' => ?_, h.putters⟩
  have := h.takers h'
  dsimp only at this ⊢
  omega

theorem putterBack (h : Alert capacity 0 0 m) (hback : m.putterBack i = some (x, m')) :
    Alert capacity 0 1 m' := by
  obtain ⟨y, hy, ⟨⟩⟩ := Option.map_eq_some_iff.mp hback
  refine ⟨h.order, h.bound, h.takers, fun h' => ?_⟩
  obtain ⟨n, hn, hle⟩ := h.putters h'
  have hi := (List.getElem?_eq_some_iff.mp hy).1
  refine ⟨n, hn, ?_⟩
  dsimp only
  rw [List.length_eraseIdx_of_lt hi]
  omega

theorem put (h : Alert capacity 0 1 m) (x : α) : Alert capacity 0 0 (m.put capacity x) := by
  rw [Monitor.put]
  split_ifs with hfull
  · obtain ⟨n, hn, hle⟩ := isFull_iff.mp hfull
    exact ⟨h.order, h.bound, h.takers, fun _ => ⟨n, hn, hle.trans (Nat.le_add_right ..)⟩⟩
  · have hlt (n : ℕ) (hn : capacity = some n) : m.items.length < n := by
      by_contra hle
      exact hfull (isFull_iff.mpr ⟨n, hn, Nat.not_lt.mp hle⟩)
    refine ⟨?_, fun n hn => ?_, fun h' => ?_, fun h' => ?_⟩
    · rw [notifyTaker, ← List.append_assoc, ← h.order]
    · rw [notifyTaker, List.length_append]
      exact hlt n hn
    · have hasleep : 0 < m.asleep := Nat.lt_of_lt_of_le h' (Nat.sub_le ..)
      have := h.takers hasleep
      simp only [notifyTaker, List.length_append, List.length_singleton, if_pos hasleep]
      omega
    · obtain ⟨n, hn, hle⟩ := h.putters h'
      refine ⟨n, hn, ?_⟩
      simp only [notifyTaker, List.length_append, List.length_singleton]
      omega

theorem sleep (h : Alert capacity 1 0 m) (hempty : m.items = []) : Alert capacity 0 0 m.sleep where
  order := h.order
  bound := h.bound
  takers _ := by
    rw [Monitor.sleep, hempty]
    exact Nat.zero_le _
  putters := h.putters

/-- Space has become free, and a thread that waits for it is woken. -/
theorem notifyPutter (h : Alert capacity 0 1 m) (i : ℕ) :
    Alert capacity 0 0 (m.notifyPutter i) := by
  rw [Monitor.notifyPutter]
  split <;> rename_i hx
  · have hempty : m.waiting = [] := by
      by_contra hne
      have hlt := Nat.mod_lt i (List.length_pos_of_ne_nil hne)
      rw [List.getElem?_eq_getElem hlt] at hx
      cases hx
    exact ⟨h.order, h.bound, h.takers, fun h' => absurd hempty h'⟩
  · refine ⟨h.order, h.bound, h.takers, fun _ => ?_⟩
    obtain ⟨n, hn, hle⟩ := h.putters (by
      rintro hempty
      rw [hempty] at hx
      cases hx)
    refine ⟨n, hn, ?_⟩
    rw [List.length_append, List.length_singleton]
    omega

theorem pop (h : Alert capacity 1 0 m) (hpop : m.pop i = some (x, m')) : Alert capacity 0 0 m' := by
  rw [Monitor.pop] at hpop
  split at hpop
  · cases hpop
  · next y rest hitems =>
    cases hpop
    have horder := h.order
    have hbound := h.bound
    have htakers := h.takers
    have hputters := h.putters
    rw [hitems] at horder hbound htakers hputters
    refine notifyPutter ⟨?_, fun n hn => ?_, fun h' => ?_, fun h' => ?_⟩ i
    · rw [horder, List.append_assoc, List.singleton_append]
    · exact Nat.le_of_succ_le (hbound n hn)
    · exact Nat.le_of_succ_le_succ (htakers h')
    · obtain ⟨n, hn, hle⟩ := hputters h'
      refine ⟨n, hn, ?_⟩
      dsimp only
      rw [List.length_cons] at hle
      omega

theorem notifyTaker (h : Alert capacity 0 0 m) : Alert capacity 0 0 m.notifyTaker where
  order := h.order
  bound := h.bound
  takers h' := by
    have hasleep : 0 < m.asleep := Nat.lt_of_lt_of_le h' (Nat.sub_le ..)
    rw [Monitor.notifyTaker, if_pos hasleep]
    exact (h.takers hasleep).trans (Nat.le_succ _)
  putters := h.putters

theorem notifyTakers (h : Alert capacity 0 0 m) : Alert capacity 0 0 m.notifyTakers :=
  ⟨h.order, h.bound, fun h' => absurd h' (Nat.lt_irrefl 0), h.putters⟩

/-- If no thread has been woken for an element, none waits while there is one. -/
theorem items_eq_nil (h : Alert capacity 0 0 m) (hwoken : m.woken = 0) (hasleep : 0 < m.asleep) :
    m.items = [] := by
  have := h.takers hasleep
  exact List.length_eq_zero_iff.mp (by omega)

/-- If no thread has been woken for space, none waits while there is some. -/
theorem length_items (h : Alert capacity 0 0 m) (hready : m.ready = []) (hwaiting : m.waiting ≠ []) :
    ∃ n, capacity = some n ∧ m.items.length = n := by
  obtain ⟨n, hn, hle⟩ := h.putters hwaiting
  have := h.bound n hn
  rw [hready, List.length_nil] at hle
  exact ⟨n, hn, by omega⟩

end Alert

/-! ### What the operations change -/

theorem pop_eq_none : m.pop i = none ↔ m.items = [] := by
  rw [pop]
  split <;> simp_all

/-- A thread that waits for space may be woken, and else nothing changes. -/
theorem notifyPutter_eq (i : ℕ) (m : Monitor α) : ∃ waiting ready,
    m.notifyPutter i = { m with waiting := waiting, ready := ready } ∧
    waiting.length + ready.length = m.waiting.length + m.ready.length ∧
    ready.length ≤ m.ready.length + 1 := by
  rw [notifyPutter]
  split <;> rename_i hx
  · exact ⟨m.waiting, m.ready, rfl, rfl, Nat.le_succ _⟩
  · have hi := (List.getElem?_eq_some_iff.mp hx).1
    refine ⟨_, _, rfl, ?_, by simp⟩
    rw [List.length_eraseIdx_of_lt hi, List.length_append, List.length_singleton]
    omega

/-- A thread that waits for an element may be woken. -/
theorem notifyTaker_counts (m : Monitor α) :
    m.notifyTaker.asleep + m.notifyTaker.woken = m.asleep + m.woken ∧
      m.notifyTaker.asleep ≤ m.asleep := by
  simp only [notifyTaker]
  split_ifs <;> omega

theorem put_counts (capacity : Option ℕ) (x : α) (m : Monitor α) :
    (m.put capacity x).asleep + (m.put capacity x).woken = m.asleep + m.woken ∧
      (m.put capacity x).asleep ≤ m.asleep ∧ (m.put capacity x).popped = m.popped := by
  rw [put]
  split_ifs
  · exact ⟨rfl, Nat.le_refl _, rfl⟩
  · obtain ⟨hsum, hle⟩ := notifyTaker_counts { m with items := m.items ++ [x],
                                                      pushed := m.pushed ++ [x] }
    exact ⟨hsum, hle, rfl⟩

theorem pop_eq_some (h : m.pop i = some (x, m')) : ∃ rest waiting ready, m.items = x :: rest ∧
    m' = { m with items := rest, popped := m.popped ++ [x], waiting := waiting, ready := ready } ∧
    waiting.length + ready.length = m.waiting.length + m.ready.length ∧
    ready.length ≤ m.ready.length + 1 := by
  rw [pop] at h
  split at h
  · cases h
  · next y rest hitems =>
    cases h
    obtain ⟨waiting, ready, heq, hsum, hle⟩ :=
      notifyPutter_eq i { m with items := rest, popped := m.popped ++ [x] }
    exact ⟨rest, waiting, ready, hitems, heq, hsum, hle⟩

/-! ### Nothing is lost -/

/-- All that threads have asked to put. -/
def held (m : Monitor α) : List α := m.waiting ++ m.ready ++ m.pushed

theorem held_put (x : α) (m : Monitor α) : (m.put capacity x).held.Perm (x :: m.held) := by
  rw [put]
  split_ifs
  · simp only [held, List.append_assoc, List.singleton_append]
    exact List.perm_middle
  · simp only [held, notifyTaker]
    rw [← List.append_assoc]
    exact List.perm_append_singleton ..

theorem held_notifyPutter (i : ℕ) (m : Monitor α) : (m.notifyPutter i).held.Perm m.held := by
  rw [notifyPutter]
  split <;> rename_i hx
  · exact .refl _
  · obtain ⟨hi, rfl⟩ := List.getElem?_eq_some_iff.mp hx
    simp only [held]
    refine .append_right _ ?_
    rw [← List.append_assoc]
    refine (List.perm_append_singleton ..).trans ?_
    exact (List.getElem_cons_eraseIdx_perm hi).append_right _

theorem held_pop (h : m.pop i = some (x, m')) : m'.held.Perm m.held := by
  rw [pop] at h
  split at h
  · cases h
  · cases h
    exact held_notifyPutter ..

theorem held_putterBack (h : m.putterBack i = some (x, m')) : (x :: m'.held).Perm m.held := by
  obtain ⟨y, hy, ⟨⟩⟩ := Option.map_eq_some_iff.mp h
  obtain ⟨hi, rfl⟩ := List.getElem?_eq_some_iff.mp hy
  simp only [held]
  rw [← List.cons_append]
  refine .append_right _ (List.perm_middle.symm.trans ?_)
  exact (List.getElem_cons_eraseIdx_perm hi).append_left _

theorem held_takerBack (h : m.takerBack = some m') : m'.held = m.held := by
  obtain ⟨-, ⟨⟩⟩ := Option.ite_none_right_eq_some.mp h
  rfl

end Monitor

end LibWebsocket.Lib
