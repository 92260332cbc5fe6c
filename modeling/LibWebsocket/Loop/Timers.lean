import LibWebsocket.Lib.OrderedSet
import LibWebsocket.Lib.Run
import Mathlib.Data.Prod.Lex
import Mathlib.Logic.Function.Basic
import Mathlib.Order.MinMax

/-! The timers of an event loop (`TimerQueue.cc`, `Timer.cc`). A pointer to a timer is an address,
and the allocator may hand out the address of a timer that has been deleted. -/
namespace LibWebsocket.Timers

open LibWebsocket.Lib

abbrev Addr := ℕ

/-- `std::pair<Timestamp, Timer*>`, the time in microseconds since the epoch. -/
abbrev Entry := ℤ ×ₗ Addr

/-- `std::pair<Timer*, int64_t>`, which is also what a `TimerId` holds. -/
abbrev ActiveTimer := Addr ×ₗ ℕ

def Entry.when (x : Entry) : ℤ := (ofLex x).1

def Entry.timer (x : Entry) : Addr := (ofLex x).2

def uintptrMax : Addr := 0xFFFFFFFFFFFFFFFF

/-- `interval_` enters through its sign, which is `repeats`, and through the microseconds that
`addTime` makes of it if it is positive. -/
structure Timer where
  expiration : ℤ
  interval : ℕ
  repeats : Bool
  sequence : ℕ
deriving DecidableEq, Repr

def Timer.restart (t : Timer) (now : ℤ) : Timer :=
  { t with expiration := if t.repeats then now + t.interval else 0 }

def Timer.entry (t : Timer) (a : Addr) : Entry := toLex (t.expiration, a)

def Timer.active (t : Timer) (a : Addr) : ActiveTimer := toLex (a, t.sequence)

/-- The timers that `handleRead` has taken out, and those of them whose callbacks it has not
called yet. -/
structure Batch where
  now : ℤ
  expired : List Entry
  rest : List Entry

/-- What another thread has posted to the loop. -/
inductive Request
  | add (timer : Addr)
  | cancel (id : ActiveTimer)
deriving DecidableEq

structure TimerQueue where
  /-- The timers that exist. -/
  heap : Addr → Option Timer
  numCreated : ℕ
  timers : OrderedSet Entry
  activeTimers : OrderedSet ActiveTimer
  cancelingTimers : OrderedSet ActiveTimer
  /-- Present while `callingExpiredTimers_` is set. -/
  batch : Option Batch
  requests : List Request
  /-- What the threads that have posted a timer are still to read from it, for the `TimerId` that
  they return. -/
  reading : List ActiveTimer
  clock : ℤ
  /-- When the timerfd becomes readable, and when it was set to that. -/
  alarm : Option ℤ
  armedAt : ℤ
  /-- The timers whose callbacks have been called, by their sequence numbers. -/
  ran : List ℕ

/-- Seconds and nanoseconds until `when`, and at least 100 microseconds. -/
def howMuchTimeFromNow (when now : ℤ) : ℤ × ℤ :=
  let microseconds := if when - now < 100 then 100 else when - now
  (microseconds / 1000000, microseconds % 1000000 * 1000)

namespace TimerQueue

def create (clock : ℤ) : TimerQueue :=
  ⟨fun _ => none, 0, .empty, .empty, .empty, none, [], [], clock, none, clock, []⟩

/-- What the asserts at the beginning and at the end of most functions check. -/
def SizesAgree (q : TimerQueue) : Prop := q.timers.size = q.activeTimers.size

instance decidableSizesAgree (q : TimerQueue) : Decidable q.SizesAgree :=
  inferInstanceAs (Decidable (_ = _))

/-- `new Timer` at an address. -/
def newTimer (q : TimerQueue) (a : Addr) (when : ℤ) (interval : ℕ) (repeats : Bool) :
    TimerQueue :=
  { q with
    heap := Function.update q.heap a (some ⟨when, interval, repeats, q.numCreated + 1⟩)
    numCreated := q.numCreated + 1 }

def resetTimerfd (q : TimerQueue) (expiration : ℤ) : TimerQueue :=
  let (seconds, nanoseconds) := howMuchTimeFromNow expiration q.clock
  { q with alarm := some (q.clock + seconds * 1000000 + nanoseconds / 1000), armedAt := q.clock }

/-- Whether an expiration comes before all in the set. -/
def earliestChanged (q : TimerQueue) (when : ℤ) : Bool :=
  match q.timers.first? with
  | none => true
  | some x => when < Entry.when x

/-! The functions below have no result when an assertion fails or a deleted timer is used. -/

def insert (q : TimerQueue) (a : Addr) : Option (Bool × TimerQueue) :=
  (q.heap a).bind fun t =>
    let q' := { q with
      timers := q.timers.insert (t.entry a), activeTimers := q.activeTimers.insert (t.active a) }
    if q.SizesAgree ∧ t.entry a ∉ q.timers ∧ t.active a ∉ q.activeTimers ∧ q'.SizesAgree then
      some (q.earliestChanged t.expiration, q')
    else none

def addTimerInLoop (q : TimerQueue) (a : Addr) : Option TimerQueue :=
  (q.insert a).bind fun r =>
    if r.1 then (r.2.heap a).map fun t => r.2.resetTimerfd t.expiration else some r.2

/-- `addTimer` in the loop's own thread. -/
def addTimer (q : TimerQueue) (a : Addr) (when : ℤ) (interval : ℕ) (repeats : Bool) :
    Option (ActiveTimer × TimerQueue) :=
  ((q.newTimer a when interval repeats).addTimerInLoop a).bind fun q' =>
    (q'.heap a).map fun t => (t.active a, q')

/-- `addTimer` in another thread, up to `return`. -/
def postAdd (q : TimerQueue) (a : Addr) (when : ℤ) (interval : ℕ) (repeats : Bool) : TimerQueue :=
  { q.newTimer a when interval repeats with
    requests := q.requests ++ [.add a]
    reading := q.reading ++ [toLex (a, q.numCreated + 1)] }

/-- The timer that a `TimerId` was made for still exists. -/
def Exists (q : TimerQueue) (id : ActiveTimer) : Prop :=
  (q.heap (ofLex id).1).any (·.sequence = (ofLex id).2) = true

instance decidableExists (q : TimerQueue) (id : ActiveTimer) : Decidable (q.Exists id) :=
  inferInstanceAs (Decidable (_ = _))

def cancelInLoop (q : TimerQueue) (id : ActiveTimer) : Option TimerQueue :=
  if ¬ q.SizesAgree then none
  else if id ∈ q.activeTimers then
    (q.heap (ofLex id).1).bind fun t =>
      let q' := { q with
        timers := q.timers.erase (t.entry (ofLex id).1), activeTimers := q.activeTimers.erase id
        heap := Function.update q.heap (ofLex id).1 none }
      if t.entry (ofLex id).1 ∈ q.timers ∧ q'.SizesAgree then some q' else none
  else if q.batch.isSome then some { q with cancelingTimers := q.cancelingTimers.insert id }
  else some q

/-- The body of the loop at the end of `getExpired`. -/
def deactivate (q : TimerQueue) (x : Entry) : Option TimerQueue :=
  (q.heap (Entry.timer x)).bind fun t =>
    if t.active (Entry.timer x) ∈ q.activeTimers then
      some { q with activeTimers := q.activeTimers.erase (t.active (Entry.timer x)) }
    else none

def getExpired (q : TimerQueue) (now : ℤ) : Option (List Entry × TimerQueue) :=
  let sentry : Entry := toLex (now, uintptrMax)
  let expired := q.timers.below sentry
  let timers := q.timers.notBelow sentry
  if q.SizesAgree ∧ ∀ x ∈ timers.first?, now < Entry.when x then
    (expired.foldlM deactivate { q with timers }).bind fun q =>
      if q.SizesAgree then some (expired, q) else none
  else none

/-- `handleRead` up to the callbacks. -/
def handleRead (q : TimerQueue) : Option TimerQueue :=
  (getExpired { q with alarm := none } q.clock).map fun r =>
    { r.2 with batch := some ⟨q.clock, r.1, r.1⟩, cancelingTimers := .empty }

/-- The body of the loop in `reset`. -/
def resetOne (now : ℤ) (q : TimerQueue) (x : Entry) : Option TimerQueue :=
  (q.heap (Entry.timer x)).bind fun t =>
    if t.repeats ∧ t.active (Entry.timer x) ∉ q.cancelingTimers then
      (insert { q with heap := Function.update q.heap (Entry.timer x) (some (t.restart now)) }
        (Entry.timer x)).map Prod.snd
    else some { q with heap := Function.update q.heap (Entry.timer x) none }

def reset (q : TimerQueue) (expired : List Entry) (now : ℤ) : Option TimerQueue :=
  (expired.foldlM (resetOne now) q).bind fun q =>
    match q.timers.first? with
    | none => some q
    | some x => (q.heap (Entry.timer x)).map fun t =>
      if 0 < t.expiration then q.resetTimerfd t.expiration else q

/-- A functor that another thread has posted. -/
def serve (q : TimerQueue) : Request → Option TimerQueue
  | .add a => q.addTimerInLoop a
  | .cancel id => q.cancelInLoop id

end TimerQueue

/-- What can happen next. `addTimer` and `cancel` are calls in the loop's own thread, and `postAdd`
and `postCancel` calls in another. With `sequence` a thread that has posted a timer goes on, and
reads its sequence number. -/
inductive Action
  | tick (micros : ℕ)
  | addTimer (a : Addr) (when : ℤ) (interval : ℕ) (repeats : Bool)
  | cancel (id : ActiveTimer)
  | postAdd (a : Addr) (when : ℤ) (interval : ℕ) (repeats : Bool)
  | postCancel (id : ActiveTimer)
  | sequence (i : ℕ)
  | serve | handleRead | callback | reset
deriving DecidableEq

namespace TimerQueue

/-- No timer is at this address, and it is one that the allocator can return. -/
def Free (q : TimerQueue) (a : Addr) : Prop := (q.heap a).isNone ∧ a < uintptrMax

instance decidableFree (q : TimerQueue) (a : Addr) : Decidable (q.Free a) :=
  inferInstanceAs (Decidable (_ ∧ _))

/-- A step that is possible may have no result. -/
def step (q : TimerQueue) : Action → Option (Option TimerQueue)
  | .tick micros => some (some { q with clock := q.clock + micros })
  | .addTimer a when interval repeats =>
    if q.Free a then some ((q.addTimer a when interval repeats).map Prod.snd) else none
  | .cancel id => some (q.cancelInLoop id)
  | .postAdd a when interval repeats =>
    if q.Free a then some (some (q.postAdd a when interval repeats)) else none
  | .postCancel id => some (some { q with requests := q.requests ++ [.cancel id] })
  | .sequence i =>
    q.reading[i]?.map fun id =>
      if q.Exists id then some { q with reading := q.reading.eraseIdx i } else none
  | .serve =>
    match q.batch, q.requests with
    | none, r :: rs => some ({ q with requests := rs }.serve r)
    | _, _ => none
  | .handleRead =>
    match q.batch, q.alarm with
    | none, some due => if due ≤ q.clock then some q.handleRead else none
    | _, _ => none
  | .callback =>
    match q.batch with
    | some ⟨now, expired, x :: rest⟩ => some ((q.heap (Entry.timer x)).map fun t =>
        { q with batch := some ⟨now, expired, rest⟩, ran := q.ran ++ [t.sequence] })
    | _ => none
  | .reset =>
    match q.batch with
    | some ⟨now, expired, []⟩ => some ({ q with batch := none }.reset expired now)
    | _ => none

end TimerQueue

/-- `none` is what is left when a step had no result. -/
def step : Option TimerQueue → Action → Option (Option TimerQueue)
  | none, _ => none
  | some q, a => q.step a

namespace TimerQueue

variable {q q' : TimerQueue} {held : List Addr} {a b : Addr} {t u : Timer}

/-- The sets are those of the timers that exist and are not held outside them. -/
structure Good (q : TimerQueue) (held : List Addr) : Prop where
  timers : ∀ x, x ∈ q.timers ↔ ∃ a t, q.heap a = some t ∧ a ∉ held ∧ t.entry a = x
  active : ∀ x, x ∈ q.activeTimers ↔ ∃ a t, q.heap a = some t ∧ a ∉ held ∧ t.active a = x
  exists_held : ∀ a ∈ held, ∃ t, q.heap a = some t
  nodup : held.Nodup
  bound : ∀ a t, q.heap a = some t → a < uintptrMax ∧ t.sequence ≤ q.numCreated
  distinct : ∀ a b t u, q.heap a = some t → q.heap b = some u → t.sequence = u.sequence → a = b

theorem active_inj (h : t.active a = u.active b) : a = b ∧ t.sequence = u.sequence := by
  simpa [Timer.active] using h

theorem entry_inj (h : t.entry a = u.entry b) : t.expiration = u.expiration ∧ a = b := by
  simpa [Timer.entry] using h

@[simp] theorem entry_when : Entry.when (t.entry a) = t.expiration := rfl

@[simp] theorem entry_timer : Entry.timer (t.entry a) = a := rfl

theorem good_create {clock : ℤ} : Good (create clock) [] := by
  constructor <;> simp [create]

theorem Good.mem_timers (h : Good q held) (ht : q.heap a = some t) :
    t.entry a ∈ q.timers ↔ a ∉ held := by
  rw [h.timers]
  constructor
  · rintro ⟨b, u, -, hb, heq⟩
    rwa [← (entry_inj heq).2]
  · exact fun ha => ⟨a, t, ht, ha, rfl⟩

theorem Good.mem_active (h : Good q held) (ht : q.heap a = some t) :
    t.active a ∈ q.activeTimers ↔ a ∉ held := by
  rw [h.active]
  constructor
  · rintro ⟨b, u, -, hb, heq⟩
    rwa [← (active_inj heq).1]
  · exact fun ha => ⟨a, t, ht, ha, rfl⟩

theorem Good.sizesAgree (h : Good q held) : q.SizesAgree := by
  refine OrderedSet.size_eq_of_map
    (fun x => toLex (Entry.timer x, ((q.heap (Entry.timer x)).map Timer.sequence).getD 0)) ?_ ?_
  · intro x hx y hy hxy
    obtain ⟨a, t, ht, -, rfl⟩ := (h.timers x).mp hx
    obtain ⟨b, u, hu, -, rfl⟩ := (h.timers y).mp hy
    obtain ⟨rfl, -⟩ : a = b ∧ _ := by simpa using hxy
    cases ht.symm.trans hu
    rfl
  · intro y
    rw [h.active]
    constructor
    · rintro ⟨a, t, ht, ha, rfl⟩
      exact ⟨t.entry a, (h.mem_timers ht).mpr ha, by simp [Timer.active, ht]⟩
    · rintro ⟨x, hx, rfl⟩
      obtain ⟨a, t, ht, ha, rfl⟩ := (h.timers x).mp hx
      exact ⟨a, t, ht, ha, by simp [Timer.active, ht]⟩

/-- Who holds a timer outside the sets does not matter. -/
theorem Good.perm {held' : List Addr} (h : Good q held) (hperm : held.Perm held') :
    Good q held' where
  timers x := by simp only [h.timers, hperm.mem_iff]
  active x := by simp only [h.active, hperm.mem_iff]
  exists_held a ha := h.exists_held a (hperm.mem_iff.mpr ha)
  nodup := hperm.nodup_iff.mp h.nodup
  bound := h.bound
  distinct := h.distinct

theorem update_eq_some {f : Addr → Option Timer} {o : Option Timer} :
    Function.update f a o b = some t ↔ (b = a ∧ o = some t) ∨ (b ≠ a ∧ f b = some t) := by
  by_cases hb : b = a
  · subst hb
    simp
  · simp [hb]

/-- The timers outside `a :: held` are those that an update at `a` leaves alone. -/
theorem exists_update_iff {f : Addr → Option Timer} {o : Option Timer} {P : Addr → Timer → Prop} :
    (∃ b t, Function.update f a o b = some t ∧ b ∉ a :: held ∧ P b t) ↔
      ∃ b t, f b = some t ∧ b ∉ a :: held ∧ P b t := by
  constructor <;> rintro ⟨b, t, ht, hb, hp⟩ <;> refine ⟨b, t, ?_, hb, hp⟩
  · rwa [Function.update_of_ne (List.ne_of_not_mem_cons hb)] at ht
  · rwa [Function.update_of_ne (List.ne_of_not_mem_cons hb)]

theorem Good.newTimer (h : Good q held) (hfree : q.Free a) (when : ℤ) (interval : ℕ)
    (repeats : Bool) : Good (q.newTimer a when interval repeats) (a :: held) := by
  have hnone : q.heap a = none := Option.isNone_iff_eq_none.mp hfree.1
  have hall {P : Addr → Timer → Prop} : (∃ b t, q.heap b = some t ∧ b ∉ a :: held ∧ P b t) ↔
      ∃ b t, q.heap b = some t ∧ b ∉ held ∧ P b t := by
    constructor <;> rintro ⟨b, t, ht, hb, hp⟩ <;> refine ⟨b, t, ht, ?_, hp⟩
    · exact List.not_mem_of_not_mem_cons hb
    · rw [List.mem_cons, not_or]
      exact ⟨by rintro rfl; simp [hnone] at ht, hb⟩
  have hseq : ∀ b t, q.heap b = some t → t.sequence ≠ q.numCreated + 1 := fun b t ht =>
    Nat.ne_of_lt (Nat.lt_succ_of_le (h.bound b t ht).2)
  constructor
  · exact fun x => (h.timers x).trans (hall.symm.trans exists_update_iff.symm)
  · exact fun x => (h.active x).trans (hall.symm.trans exists_update_iff.symm)
  · intro b hb
    by_cases hba : b = a
    · exact ⟨_, update_eq_some.mpr (.inl ⟨hba, rfl⟩)⟩
    · obtain ⟨t, ht⟩ := h.exists_held b (List.mem_of_ne_of_mem hba hb)
      exact ⟨t, update_eq_some.mpr (.inr ⟨hba, ht⟩)⟩
  · refine h.nodup.cons fun ha => ?_
    obtain ⟨t, ht⟩ := h.exists_held a ha
    simp [hnone] at ht
  · intro b t ht
    rcases update_eq_some.mp ht with ⟨rfl, hnew⟩ | ⟨-, hold⟩
    · cases hnew
      exact ⟨hfree.2, le_rfl⟩
    · exact ⟨(h.bound b t hold).1, Nat.le_succ_of_le (h.bound b t hold).2⟩
  · intro b c t u ht hu hseq'
    rcases update_eq_some.mp ht with ⟨rfl, hnew⟩ | ⟨-, hold⟩ <;>
      rcases update_eq_some.mp hu with ⟨rfl, hnew'⟩ | ⟨-, hold'⟩
    · rfl
    · cases hnew
      exact absurd hseq'.symm (hseq c u hold')
    · cases hnew'
      exact absurd hseq' (hseq b t hold)
    · exact h.distinct b c t u hold hold' hseq'

/-- A timer that is held can be changed, with its sequence number as it was. -/
theorem Good.restart (h : Good q (a :: held)) (ht : q.heap a = some t)
    (hseq : u.sequence = t.sequence) :
    Good { q with heap := Function.update q.heap a (some u) } (a :: held) where
  timers x := (h.timers x).trans exists_update_iff.symm
  active x := (h.active x).trans exists_update_iff.symm
  exists_held b hb := by
    by_cases hba : b = a
    · exact ⟨_, update_eq_some.mpr (.inl ⟨hba, rfl⟩)⟩
    · obtain ⟨t, ht⟩ := h.exists_held b hb
      exact ⟨t, update_eq_some.mpr (.inr ⟨hba, ht⟩)⟩
  nodup := h.nodup
  bound b v hv := by
    rcases update_eq_some.mp hv with ⟨rfl, hnew⟩ | ⟨-, hold⟩
    · cases hnew
      rw [hseq]
      exact h.bound b t ht
    · exact h.bound b v hold
  distinct b c v w hv hw hvw := by
    rcases update_eq_some.mp hv with ⟨rfl, hnew⟩ | ⟨-, hold⟩ <;>
      rcases update_eq_some.mp hw with ⟨rfl, hnew'⟩ | ⟨-, hold'⟩
    · rfl
    · cases hnew
      exact h.distinct b c t w ht hold' (hseq.symm.trans hvw)
    · cases hnew'
      exact h.distinct b c v t hold ht (hvw.trans hseq)
    · exact h.distinct b c v w hold hold' hvw

/-- A timer that is held can be deleted. -/
theorem Good.delete (h : Good q (a :: held)) :
    Good { q with heap := Function.update q.heap a none } held := by
  obtain ⟨hnot, hnodup⟩ := List.nodup_cons.mp h.nodup
  have hold {b : Addr} {t : Timer} (ht : Function.update q.heap a none b = some t) :
      b ≠ a ∧ q.heap b = some t := by
    rcases update_eq_some.mp ht with ⟨-, h⟩ | h
    · cases h
    · exact h
  have hall {P : Addr → Timer → Prop} : (∃ b t, q.heap b = some t ∧ b ∉ a :: held ∧ P b t) ↔
      ∃ b t, Function.update q.heap a none b = some t ∧ b ∉ held ∧ P b t := by
    constructor
    · rintro ⟨b, t, ht, hb, hp⟩
      rw [List.mem_cons, not_or] at hb
      exact ⟨b, t, update_eq_some.mpr (.inr ⟨hb.1, ht⟩), hb.2, hp⟩
    · rintro ⟨b, t, ht, hb, hp⟩
      obtain ⟨hne, ht⟩ := hold ht
      exact ⟨b, t, ht, by simp [hne, hb], hp⟩
  constructor
  · exact fun x => (h.timers x).trans hall
  · exact fun x => (h.active x).trans hall
  · intro b hb
    obtain ⟨t, ht⟩ := h.exists_held b (List.mem_cons_of_mem a hb)
    exact ⟨t, update_eq_some.mpr (.inr ⟨ne_of_mem_of_not_mem hb hnot, ht⟩)⟩
  · exact hnodup
  · exact fun b t ht => h.bound b t (hold ht).2
  · exact fun b c t u ht hu => h.distinct b c t u (hold ht).2 (hold hu).2

/-- The sets with a timer put into them. -/
def activate (q : TimerQueue) (a : Addr) (t : Timer) : TimerQueue :=
  { q with
    timers := q.timers.insert (t.entry a), activeTimers := q.activeTimers.insert (t.active a) }

theorem Good.activate (h : Good q (a :: held)) (ht : q.heap a = some t) :
    Good (q.activate a t) held := by
  obtain ⟨hnot, hnodup⟩ := List.nodup_cons.mp h.nodup
  have hall {P : Addr → Timer → Prop} : (∃ b u, q.heap b = some u ∧ b ∉ held ∧ P b u) ↔
      P a t ∨ ∃ b u, q.heap b = some u ∧ b ∉ a :: held ∧ P b u := by
    constructor
    · rintro ⟨b, u, hu, hb, hp⟩
      by_cases hba : b = a
      · subst hba
        cases ht.symm.trans hu
        exact .inl hp
      · exact .inr ⟨b, u, hu, by simp [hba, hb], hp⟩
    · rintro (hp | ⟨b, u, hu, hb, hp⟩)
      · exact ⟨a, t, ht, hnot, hp⟩
      · exact ⟨b, u, hu, List.not_mem_of_not_mem_cons hb, hp⟩
  constructor
  · intro x
    rw [TimerQueue.activate, OrderedSet.mem_insert, h.timers, hall, eq_comm]
  · intro x
    rw [TimerQueue.activate, OrderedSet.mem_insert, h.active, hall, eq_comm]
  · exact fun b hb => h.exists_held b (List.mem_cons_of_mem a hb)
  · exact hnodup
  · exact h.bound
  · exact h.distinct

/-- The sets with a timer taken out of them. -/
def takeOut (q : TimerQueue) (a : Addr) (t : Timer) : TimerQueue :=
  { q with
    timers := q.timers.erase (t.entry a), activeTimers := q.activeTimers.erase (t.active a) }

theorem Good.takeOut (h : Good q held) (ht : q.heap a = some t) (ha : a ∉ held) :
    Good (q.takeOut a t) (a :: held) := by
  have hall {P : Addr → Timer → Prop} : (∃ b u, q.heap b = some u ∧ b ∉ a :: held ∧ P b u) ↔
      ∃ b u, q.heap b = some u ∧ b ∉ held ∧ b ≠ a ∧ P b u := by
    simp only [List.mem_cons, not_or]
    constructor <;> rintro ⟨b, u, hu, h⟩ <;> exact ⟨b, u, hu, by tauto⟩
  constructor
  · intro x
    rw [TimerQueue.takeOut, OrderedSet.mem_erase, h.timers, hall]
    constructor
    · rintro ⟨hne, b, u, hu, hb, rfl⟩
      refine ⟨b, u, hu, hb, ?_, rfl⟩
      rintro rfl
      cases ht.symm.trans hu
      exact hne rfl
    · rintro ⟨b, u, hu, hb, hba, rfl⟩
      exact ⟨fun heq => hba (entry_inj heq).2, b, u, hu, hb, rfl⟩
  · intro x
    rw [TimerQueue.takeOut, OrderedSet.mem_erase, h.active, hall]
    constructor
    · rintro ⟨hne, b, u, hu, hb, rfl⟩
      refine ⟨b, u, hu, hb, ?_, rfl⟩
      rintro rfl
      cases ht.symm.trans hu
      exact hne rfl
    · rintro ⟨b, u, hu, hb, hba, rfl⟩
      exact ⟨fun heq => hba (active_inj heq).1, b, u, hu, hb, rfl⟩
  · intro b hb
    rcases List.mem_cons.mp hb with rfl | hb
    · exact ⟨t, ht⟩
    · exact h.exists_held b hb
  · exact h.nodup.cons ha
  · exact h.bound
  · exact h.distinct

theorem insert_eq (h : Good q (a :: held)) (ht : q.heap a = some t) :
    q.insert a = some (q.earliestChanged t.expiration, q.activate a t) := by
  have hin : ¬ a ∉ a :: held := not_not_intro List.mem_cons_self
  rw [insert, ht, Option.bind_some]
  exact if_pos ⟨h.sizesAgree, mt (h.mem_timers ht).mp hin, mt (h.mem_active ht).mp hin,
    (h.activate ht).sizesAgree⟩

/-- What `addTimerInLoop` leaves behind. -/
def added (q : TimerQueue) (a : Addr) (t : Timer) : TimerQueue :=
  if q.earliestChanged t.expiration then (q.activate a t).resetTimerfd t.expiration
  else q.activate a t

theorem addTimerInLoop_eq (h : Good q (a :: held)) (ht : q.heap a = some t) :
    q.addTimerInLoop a = some (q.added a t) := by
  rw [addTimerInLoop, insert_eq h ht, Option.bind_some, added, apply_ite some]
  exact if_congr Iff.rfl (congrArg _ ht) rfl

/-- A timer in the sets is deleted at once. -/
theorem cancelInLoop_of_active (h : Good q held) (ht : q.heap a = some t) (ha : a ∉ held) :
    q.cancelInLoop (t.active a) =
      some { q.takeOut a t with heap := Function.update q.heap a none } := by
  have hgood := (h.takeOut ht ha).delete
  rw [cancelInLoop, if_neg (not_not_intro h.sizesAgree), if_pos ((h.mem_active ht).mpr ha)]
  rw [show (ofLex (t.active a)).1 = a from rfl, ht, Option.bind_some]
  exact if_pos ⟨(h.mem_timers ht).mpr ha, hgood.sizesAgree⟩

/-- Any other `TimerId` is at most noted. -/
theorem cancelInLoop_of_not_active (h : Good q held) {id : ActiveTimer}
    (hid : id ∉ q.activeTimers) :
    q.cancelInLoop id = some (if q.batch.isSome then
      { q with cancelingTimers := q.cancelingTimers.insert id } else q) := by
  rw [cancelInLoop, if_neg (not_not_intro h.sizesAgree), if_neg hid]
  split_ifs <;> rfl

theorem foldlM_deactivate {xs : List Entry}
    (hxs : ∀ x ∈ xs, ∃ t, q.heap (Entry.timer x) = some t ∧
      t.active (Entry.timer x) ∈ q.activeTimers)
    (hnodup : (xs.map Entry.timer).Nodup) :
    ∃ s : OrderedSet ActiveTimer, xs.foldlM deactivate q = some { q with activeTimers := s } ∧
      ∀ y, y ∈ s ↔ y ∈ q.activeTimers ∧
        ∀ x ∈ xs, ∀ t, q.heap (Entry.timer x) = some t → y ≠ t.active (Entry.timer x) := by
  induction xs generalizing q with
  | nil => exact ⟨q.activeTimers, rfl, by simp⟩
  | cons x xs ih =>
    obtain ⟨hx, hxs⟩ := List.forall_mem_cons.mp hxs
    obtain ⟨t, ht, hmem⟩ := hx
    rw [List.map_cons, List.nodup_cons] at hnodup
    have hstep : deactivate q x =
        some { q with activeTimers := q.activeTimers.erase (t.active (Entry.timer x)) } := by
      rw [deactivate, ht, Option.bind_some]
      exact if_pos hmem
    obtain ⟨s, hs, hmems⟩ := ih
      (q := { q with activeTimers := q.activeTimers.erase (t.active (Entry.timer x)) })
      (by
        intro y hy
        obtain ⟨u, hu, huact⟩ := hxs y hy
        refine ⟨u, hu, OrderedSet.mem_erase.mpr ⟨fun heq => ?_, huact⟩⟩
        exact hnodup.1 (List.mem_map.mpr ⟨y, hy, (active_inj heq).1⟩)) hnodup.2
    refine ⟨s, ?_, fun y => ?_⟩
    · rw [List.foldlM_cons, hstep]
      exact hs
    · rw [hmems, OrderedSet.mem_erase, List.forall_mem_cons, ht]
      simp only [Option.some.injEq, forall_eq']
      tauto

theorem entry_lt_sentry_iff {now : ℤ} (ha : a < uintptrMax) :
    t.entry a < toLex (now, uintptrMax) ↔ t.expiration ≤ now := by
  rw [Timer.entry, Prod.Lex.toLex_lt_toLex]
  constructor
  · rintro (h | h)
    · exact h.le
    · exact h.1.le
  · exact fun h => h.lt_or_eq.imp_right fun heq => ⟨heq, ha⟩

/-- `getExpired` takes out the timers that are due, in the order of the set, and no others. -/
theorem getExpired_eq (h : Good q held) (now : ℤ) :
    ∃ xs q', q.getExpired now = some (xs, q') ∧ Good q' (xs.map Entry.timer ++ held) ∧
      q' = { q with timers := q'.timers, activeTimers := q'.activeTimers } ∧
      xs.Pairwise (· < ·) ∧
      (∀ x, x ∈ xs ↔ x ∈ q.timers ∧ Entry.when x ≤ now) ∧
      (∀ x, x ∈ q'.timers ↔ x ∈ q.timers ∧ now < Entry.when x) := by
  have hlt {x : Entry} (hx : x ∈ q.timers) :
      x < toLex (now, uintptrMax) ↔ Entry.when x ≤ now := by
    obtain ⟨a, t, ht, -, rfl⟩ := (h.timers x).mp hx
    exact entry_lt_sentry_iff (h.bound a t ht).1
  have hexpired : ∀ x, x ∈ q.timers.below (toLex (now, uintptrMax)) ↔
      x ∈ q.timers ∧ Entry.when x ≤ now := fun x => by
    rw [OrderedSet.mem_below]
    exact and_congr_right hlt
  have hrest : ∀ x, x ∈ q.timers.notBelow (toLex (now, uintptrMax)) ↔
      x ∈ q.timers ∧ now < Entry.when x := fun x => by
    rw [OrderedSet.mem_notBelow, ← not_lt]
    exact and_congr_right fun hx => by rw [hlt hx, not_le]
  have hsorted := q.timers.pairwise_below (x := toLex (now, uintptrMax))
  generalize hxs : q.timers.below (toLex (now, uintptrMax)) = xs at hexpired hsorted
  generalize hts : q.timers.notBelow (toLex (now, uintptrMax)) = ts at hrest
  -- What is taken out is in both sets, at different addresses.
  have hfrom : ∀ x ∈ xs, ∃ a t, q.heap a = some t ∧ a ∉ held ∧ t.entry a = x := fun x hx =>
    (h.timers x).mp ((hexpired x).mp hx).1
  have hact : ∀ x ∈ xs, ∃ t, q.heap (Entry.timer x) = some t ∧
      t.active (Entry.timer x) ∈ q.activeTimers := by
    intro x hx
    obtain ⟨a, t, ht, ha, rfl⟩ := hfrom x hx
    exact ⟨t, ht, (h.mem_active ht).mpr ha⟩
  have hinj : ∀ x ∈ xs, ∀ y ∈ xs, Entry.timer x = Entry.timer y → x = y := by
    intro x hx y hy heq
    obtain ⟨a, t, ht, -, rfl⟩ := hfrom x hx
    obtain ⟨b, u, hu, -, rfl⟩ := hfrom y hy
    obtain rfl : a = b := heq
    cases ht.symm.trans hu
    rfl
  have hnodup : (xs.map Entry.timer).Nodup :=
    List.Nodup.map_on hinj (hsorted.imp fun h => h.ne)
  have hdue {a : Addr} {t : Timer} (ht : q.heap a = some t) (ha : a ∉ held) :
      a ∈ xs.map Entry.timer ↔ t.expiration ≤ now := by
    constructor
    · intro hmem
      obtain ⟨x, hx, rfl⟩ := List.mem_map.mp hmem
      obtain ⟨b, u, hu, -, rfl⟩ := hfrom x hx
      cases (ht.symm.trans hu : some t = some u)
      exact ((hexpired _).mp hx).2
    · exact fun hle => List.mem_map.mpr
        ⟨t.entry a, (hexpired _).mpr ⟨(h.mem_timers ht).mpr ha, hle⟩, rfl⟩
  obtain ⟨s, hfold, hs⟩ := foldlM_deactivate (q := { q with timers := ts }) hact hnodup
  have hgood : Good { q with timers := ts, activeTimers := s } (xs.map Entry.timer ++ held) := by
    constructor
    · intro x
      rw [show x ∈ ts ↔ _ from hrest x, h.timers]
      constructor
      · rintro ⟨⟨a, t, ht, ha, rfl⟩, hlt⟩
        refine ⟨a, t, ht, ?_, rfl⟩
        rw [List.mem_append, not_or, hdue ht ha]
        exact ⟨hlt.not_ge, ha⟩
      · rintro ⟨a, t, ht, ha, rfl⟩
        rw [List.mem_append, not_or] at ha
        exact ⟨⟨a, t, ht, ha.2, rfl⟩, not_le.mp (mt (hdue ht ha.2).mpr ha.1)⟩
    · intro y
      rw [show y ∈ s ↔ _ from hs y, h.active]
      constructor
      · rintro ⟨⟨a, t, ht, ha, rfl⟩, hne⟩
        refine ⟨a, t, ht, ?_, rfl⟩
        rw [List.mem_append, not_or]
        refine ⟨fun hmem => ?_, ha⟩
        obtain ⟨x, hx, rfl⟩ := List.mem_map.mp hmem
        exact hne x hx t ht rfl
      · rintro ⟨a, t, ht, ha, rfl⟩
        rw [List.mem_append, not_or] at ha
        refine ⟨⟨a, t, ht, ha.2, rfl⟩, fun x hx u _ heq => ha.1 ?_⟩
        exact List.mem_map.mpr ⟨x, hx, (active_inj heq).1.symm⟩
    · intro a ha
      rcases List.mem_append.mp ha with ha | ha
      · obtain ⟨x, hx, rfl⟩ := List.mem_map.mp ha
        obtain ⟨t, ht, -⟩ := hact x hx
        exact ⟨t, ht⟩
      · exact h.exists_held a ha
    · refine List.nodup_append.mpr ⟨hnodup, h.nodup, fun a ha b hb hab => ?_⟩
      obtain ⟨x, hx, rfl⟩ := List.mem_map.mp ha
      obtain ⟨c, t, -, hc, rfl⟩ := hfrom x hx
      obtain rfl : c = b := hab
      exact hc hb
    · exact h.bound
    · exact h.distinct
  refine ⟨xs, _, ?_, hgood, rfl, hsorted, hexpired, hrest⟩
  have hassert : q.SizesAgree ∧ ∀ x ∈ ts.first?, now < Entry.when x :=
    ⟨h.sizesAgree, fun x hx => ((hrest x).mp (OrderedSet.first?_eq_some hx).1).2⟩
  simp only [getExpired, hxs, hts]
  rw [if_pos hassert, hfold, Option.bind_some]
  exact if_pos hgood.sizesAgree

/-- What `reset` makes of a timer: it starts again, or is deleted. -/
def afterReset (canceling : OrderedSet ActiveTimer) (now : ℤ) (a : Addr) (t : Timer) :
    Option Timer :=
  if t.repeats ∧ t.active a ∉ canceling then some (t.restart now) else none

/-- Only the timers and the sets differ. -/
def Frame (q q' : TimerQueue) : Prop :=
  q' = { q with heap := q'.heap, timers := q'.timers, activeTimers := q'.activeTimers }

theorem Frame.trans {q'' : TimerQueue} (h : Frame q q') (h' : Frame q' q'') : Frame q q'' := by
  unfold Frame at *
  rw [h', h]

theorem resetOne_eq {x : Entry} (h : Good q (Entry.timer x :: held))
    (ht : q.heap (Entry.timer x) = some t) (now : ℤ) :
    ∃ q', resetOne now q x = some q' ∧ Good q' held ∧ Frame q q' ∧
      q'.heap = Function.update q.heap (Entry.timer x)
        (afterReset q.cancelingTimers now (Entry.timer x) t) := by
  rw [resetOne, ht, Option.bind_some, afterReset]
  split_ifs with hagain
  · have hgood := h.restart ht (u := t.restart now) rfl
    have hself : Function.update q.heap (Entry.timer x) (some (t.restart now)) (Entry.timer x) =
        some (t.restart now) := Function.update_self ..
    rw [insert_eq hgood hself]
    exact ⟨_, rfl, hgood.activate hself, rfl, rfl⟩
  · exact ⟨_, rfl, h.delete, rfl, rfl⟩

theorem foldlM_resetOne {xs : List Entry} (h : Good q (xs.map Entry.timer ++ held)) (now : ℤ) :
    ∃ q', xs.foldlM (resetOne now) q = some q' ∧ Good q' held ∧ Frame q q' ∧
      (∀ a ∉ xs.map Entry.timer, q'.heap a = q.heap a) ∧
      ∀ a ∈ xs.map Entry.timer, ∀ t, q.heap a = some t →
        q'.heap a = afterReset q.cancelingTimers now a t := by
  induction xs generalizing q with
  | nil => exact ⟨q, rfl, h, rfl, fun _ _ => rfl, by simp⟩
  | cons x xs ih =>
    rw [List.map_cons, List.cons_append] at h
    obtain ⟨t, ht⟩ := h.exists_held _ List.mem_cons_self
    obtain ⟨q₁, hq₁, hgood₁, hframe₁, hheap₁⟩ := resetOne_eq h ht now
    obtain ⟨q', hq', hgood', hframe', hother, hreset⟩ := ih hgood₁
    have hnot : Entry.timer x ∉ xs.map Entry.timer := by
      have := (List.nodup_cons.mp h.nodup).1
      rw [List.mem_append, not_or] at this
      exact this.1
    have hcanceling : q₁.cancelingTimers = q.cancelingTimers := by rw [hframe₁]
    refine ⟨q', ?_, hgood', hframe₁.trans hframe', ?_, ?_⟩
    · rw [List.foldlM_cons, hq₁]
      exact hq'
    · intro a ha
      rw [List.map_cons, List.mem_cons, not_or] at ha
      rw [hother a ha.2, hheap₁, Function.update_of_ne ha.1]
    · intro a ha u hu
      by_cases hax : a = Entry.timer x
      · subst hax
        cases ht.symm.trans hu
        rw [hother _ hnot, hheap₁, Function.update_self]
      · have hmem := List.mem_of_ne_of_mem hax ha
        rw [← hcanceling]
        exact hreset a hmem u (by rw [hheap₁, Function.update_of_ne hax, hu])

/-- The timerfd set to the earliest expiration, if that is a valid time. -/
def rearmed (q : TimerQueue) : TimerQueue :=
  match q.timers.first? with
  | none => q
  | some x => if 0 < Entry.when x then q.resetTimerfd (Entry.when x) else q

/-- `reset` gives every timer of the batch its next turn or deletes it, and arms the timerfd. -/
theorem reset_eq {xs : List Entry} (h : Good q (xs.map Entry.timer ++ held)) (now : ℤ) :
    ∃ q₁, xs.foldlM (resetOne now) q = some q₁ ∧ Good q₁ held ∧ Frame q q₁ ∧
      (∀ a ∉ xs.map Entry.timer, q₁.heap a = q.heap a) ∧
      (∀ a ∈ xs.map Entry.timer, ∀ t, q.heap a = some t →
        q₁.heap a = afterReset q.cancelingTimers now a t) ∧
      q.reset xs now = some q₁.rearmed := by
  obtain ⟨q₁, hq₁, hgood, hframe, hother, hreset⟩ := foldlM_resetOne h now
  refine ⟨q₁, hq₁, hgood, hframe, hother, hreset, ?_⟩
  rw [reset, hq₁, Option.bind_some, rearmed]
  cases hfirst : q₁.timers.first? with
  | none => rfl
  | some x =>
    obtain ⟨a, t, ht, -, rfl⟩ := (hgood.timers x).mp (OrderedSet.first?_eq_some hfirst).1
    simp only [entry_timer, entry_when, ht, Option.map_some]
    rfl

end TimerQueue

end LibWebsocket.Timers
