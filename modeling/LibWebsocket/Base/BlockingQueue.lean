import LibWebsocket.Lib.Monitor
import LibWebsocket.Lib.Run

/-! The queues that threads wait at (`BlockingQueue.h`, `BoundedBlockingQueue.h`). -/
namespace LibWebsocket.Base

open LibWebsocket.Lib

/-- What can happen at a queue: a call of `put` or `take` gets the mutex, or a thread that waits in
one of them gets it again. A thread may also stop waiting without having been notified. Behind
`take`, `i` says which of the threads is notified that wait for space. -/
inductive QueueStep (α : Type*)
  | put (x : α)
  | putAgain (i : ℕ)
  | take (i : ℕ)
  | takeAgain (i : ℕ)
  | wakeTaker
  | wakePutter (i : ℕ)
deriving DecidableEq, Repr

variable {α : Type*}

/-- `while (queue_.empty()) notEmpty_.wait()`, and what follows. -/
def takeOrWait (i : ℕ) (m : Monitor α) : Monitor α :=
  match m.pop i with
  | none => m.sleep
  | some r => r.2

/-- `BoundedBlockingQueue` with the capacity `maxSize`, and `BlockingQueue` without one. There nobody
waits for space, so that it makes no difference that its `take` notifies nobody of it. -/
def queueStep (capacity : Option ℕ) (m : Monitor α) : QueueStep α → Option (Monitor α)
  | .put x => some (m.put capacity x)
  | .putAgain i => (m.putterBack i).map fun r => r.2.put capacity r.1
  | .take i => some (takeOrWait i m)
  | .takeAgain i => m.takerBack.map (takeOrWait i)
  | .wakeTaker => if 0 < m.asleep then some m.notifyTaker else none
  | .wakePutter i => if m.waiting ≠ [] then some (m.notifyPutter i) else none

def QueueStep.asked : QueueStep α → Option α
  | .put x => some x
  | _ => none

/-- What `put` has been called with. -/
def asked (as : List (QueueStep α)) : List α := as.filterMap QueueStep.asked

variable {capacity : Option ℕ} {m m' : Monitor α} {a : QueueStep α} {as : List (QueueStep α)}

theorem takeOrWait_alert (h : m.Alert capacity 1 0) (i : ℕ) :
    (takeOrWait i m).Alert capacity 0 0 := by
  rw [takeOrWait]
  split <;> rename_i hpop
  · refine h.sleep ?_
    rw [Monitor.pop] at hpop
    split at hpop
    · assumption
    · cases hpop
  · exact h.pop hpop

theorem held_takeOrWait (i : ℕ) (m : Monitor α) : (takeOrWait i m).held.Perm m.held := by
  rw [takeOrWait]
  split <;> rename_i hpop
  · exact .refl _
  · exact Monitor.held_pop hpop

theorem queueStep_alert (h : m.Alert capacity 0 0) (hstep : queueStep capacity m a = some m') :
    m'.Alert capacity 0 0 := by
  cases a with
  | put x =>
    cases hstep
    exact h.putter.put x
  | putAgain i =>
    obtain ⟨r, hr, rfl⟩ := Option.map_eq_some_iff.mp hstep
    exact (h.putterBack hr).put r.1
  | take i =>
    cases hstep
    exact takeOrWait_alert h.taker i
  | takeAgain i =>
    obtain ⟨r, hr, rfl⟩ := Option.map_eq_some_iff.mp hstep
    exact takeOrWait_alert (h.takerBack hr) i
  | wakeTaker =>
    obtain ⟨-, ⟨⟩⟩ := Option.ite_none_right_eq_some.mp hstep
    exact h.notifyTaker
  | wakePutter i =>
    obtain ⟨-, ⟨⟩⟩ := Option.ite_none_right_eq_some.mp hstep
    exact h.putter.notifyPutter i

theorem held_queueStep (hstep : queueStep capacity m a = some m') :
    m'.held.Perm (a.asked.toList ++ m.held) := by
  cases a with
  | put x =>
    cases hstep
    exact m.held_put x
  | putAgain i =>
    obtain ⟨r, hr, rfl⟩ := Option.map_eq_some_iff.mp hstep
    exact (r.2.held_put r.1).trans (Monitor.held_putterBack hr)
  | take i =>
    cases hstep
    exact held_takeOrWait i m
  | takeAgain i =>
    obtain ⟨r, hr, rfl⟩ := Option.map_eq_some_iff.mp hstep
    exact (held_takeOrWait i r).trans (.of_eq (Monitor.held_takerBack hr))
  | wakeTaker =>
    obtain ⟨-, ⟨⟩⟩ := Option.ite_none_right_eq_some.mp hstep
    exact .refl _
  | wakePutter i =>
    obtain ⟨-, ⟨⟩⟩ := Option.ite_none_right_eq_some.mp hstep
    exact m.held_notifyPutter i

theorem run_alert (h : run (queueStep capacity) (.create : Monitor α) as = some m) :
    m.Alert capacity 0 0 :=
  Reachable.invariant Monitor.alert_create queueStep_alert ⟨as, h⟩

theorem held_run (h : run (queueStep capacity) m as = some m') :
    m'.held.Perm (asked as ++ m.held) := by
  induction as generalizing m with
  | nil =>
    cases h
    exact .refl _
  | cons a as ih =>
    obtain ⟨m₁, h₁, h⟩ := run_cons_eq_some.mp h
    refine (ih h).trans (((held_queueStep h₁).append_left _).trans ?_)
    rw [asked, asked, List.filterMap_cons]
    cases a.asked with
    | none => exact .refl _
    | some x => exact List.perm_middle

/-- Whatever threads put and take and in whichever order they get the mutex: every element that
`put` was called with is in one place, the elements are taken once and in the order in which they
were put, the queue never holds more than it may, and no thread is left waiting that could go
on. -/
theorem queue_fifo (h : run (queueStep capacity) (.create : Monitor α) as = some m) :
    (asked as).Perm (m.waiting ++ m.ready ++ (m.popped ++ m.items)) ∧
    m.pushed = m.popped ++ m.items ∧ (∀ maxSize, capacity = some maxSize → m.items.length ≤ maxSize) ∧
    (m.woken = 0 → 0 < m.asleep → m.items = []) ∧
    (m.ready = [] → m.waiting ≠ [] → ∃ maxSize, capacity = some maxSize ∧
      m.items.length = maxSize) := by
  have halert := run_alert h
  have hheld := held_run h
  refine ⟨?_, halert.order, halert.bound, halert.items_eq_nil, halert.length_items⟩
  rw [← halert.order]
  exact (hheld.trans (.of_eq (List.append_nil _))).symm

/-- Two elements for one place, and a thread that waited before there was one. -/
theorem queue_fifo_two : ∃ (as : List (QueueStep ℕ)) (m : Monitor ℕ),
    run (queueStep (some 1)) .create as = some m ∧ asked as = [1, 2] ∧
    (asked as).Perm (m.waiting ++ m.ready ++ (m.popped ++ m.items)) ∧
    m.pushed = m.popped ++ m.items ∧ (∀ maxSize, some 1 = some maxSize → m.items.length ≤ maxSize) ∧
    (m.woken = 0 → 0 < m.asleep → m.items = []) ∧
    (m.ready = [] → m.waiting ≠ [] → ∃ maxSize, some 1 = some maxSize ∧
      m.items.length = maxSize) := by
  obtain ⟨m, hm, -⟩ := exists_run_of_test (queueStep (some 1)) (.create : Monitor ℕ)
    [.take 0, .put 1, .put 2, .wakePutter 0, .putAgain 0, .takeAgain 0] (fun _ => true)
    (by decide +kernel)
  exact ⟨_, m, hm, rfl, queue_fifo hm⟩

end LibWebsocket.Base
