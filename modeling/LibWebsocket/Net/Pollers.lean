import LibWebsocket.Lib.Run
import Mathlib.Algebra.Order.Ring.Int
import Mathlib.Data.List.Nodup
import Mathlib.Logic.Function.Basic

/-! The two pollers. `PollPoller` keeps an array for `poll(2)` in which each channel knows its place,
`EPollPoller` keeps the list of the kernel up to date. Both are to watch what the channels ask for.
Channels are numbered, and `fd` gives their file descriptors; `none` stands for an assertion of
the source that fails. -/
namespace LibWebsocket.Net
open Lib

/-- What a channel calls, with the events that it has by then. -/
inductive PollOp
  | updateChannel (ch events : ℕ)
  | removeChannel (ch : ℕ)
deriving DecidableEq, Repr

/-! ## What is asked for -/

/-- The channel of each file descriptor with its events, and the channels there have been. -/
structure Interest where
  table : ℕ → Option (ℕ × ℕ)
  used : ℕ → Bool
  /-- A channel that had no events has been updated to none again. -/
  again : Bool

variable {fd : ℕ → ℕ}

namespace Interest

def create : Interest := ⟨fun _ => none, fun _ => false, false⟩

/-- The use that the channels are to make of a poller: one channel has a file descriptor at a time,
it comes with an event, and it does not come back once it is removed, which it is without events. -/
def step (fd : ℕ → ℕ) (t : Interest) : PollOp → Option Interest
  | .updateChannel ch events =>
    match t.table (fd ch) with
    | none =>
      if t.used ch = false ∧ events ≠ 0 then
        some { t with
          table := Function.update t.table (fd ch) (some (ch, events))
          used := Function.update t.used ch true }
      else none
    | some (owner, old) =>
      if owner = ch then
        some { t with
          table := Function.update t.table (fd ch) (some (ch, events))
          again := t.again || decide (old = 0 ∧ events = 0) }
      else none
  | .removeChannel ch =>
    if t.table (fd ch) = some (ch, 0) then
      some { t with table := Function.update t.table (fd ch) none }
    else none

end Interest

/-! ## poll -/

structure PollFd where
  fd : ℤ
  events : ℕ
deriving DecidableEq, Repr

structure PollPoller where
  pollfds : List PollFd
  channels : ℕ → Option ℕ
  /-- `index_` and `events_` of the channels. -/
  index : ℕ → ℤ
  events : ℕ → ℕ

/-- What the kernel reports of a file descriptor: errors and hang-ups in any case. -/
def revents (ready : ℕ → ℕ) (fd events : ℕ) : ℕ := ready fd &&& (events ||| 0x18)

/-- A `short`. -/
def short (n : ℕ) : ℤ := if n % 65536 < 32768 then n % 65536 else n % 65536 - 65536

namespace PollPoller

def create : PollPoller := ⟨[], fun _ => none, fun _ => -1, fun _ => 0⟩

/-- The entry of a channel. Of its events, 16 bits are kept, and without events it is ignored. -/
def entryOf (fd events : ℕ) : PollFd := ⟨if events = 0 then -fd - 1 else fd, events % 65536⟩

def updateChannel (fd : ℕ → ℕ) (p : PollPoller) (ch events : ℕ) : Option PollPoller :=
  if p.index ch < 0 then
    if p.channels (fd ch) = none then
      some {
        pollfds := p.pollfds ++ [⟨fd ch, events % 65536⟩]
        channels := Function.update p.channels (fd ch) (some ch)
        index := Function.update p.index ch p.pollfds.length
        events := Function.update p.events ch events }
    else none
  else
    match p.pollfds[(p.index ch).toNat]? with
    | none => none
    | some pfd =>
      if p.channels (fd ch) = some ch ∧ (pfd.fd = fd ch ∨ pfd.fd = -fd ch - 1) then
        some { p with
          pollfds := p.pollfds.set (p.index ch).toNat (entryOf (fd ch) events)
          events := Function.update p.events ch events }
      else none

/-- The last entry takes the place of the one at `idx`, and its channel is told. -/
def moveLast (p : PollPoller) (idx : ℕ) : Option PollPoller :=
  match p.pollfds.getLast? with
  | none => none
  | some last =>
    let channelAtEnd := if last.fd < 0 then -last.fd - 1 else last.fd
    match p.channels channelAtEnd.toNat with
    | none => none
    | some ch => some { p with
        pollfds := (p.pollfds.set idx last).dropLast
        index := Function.update p.index ch idx }

/-- The index of the channel that is removed stays as it was. -/
def removeChannel (fd : ℕ → ℕ) (p : PollPoller) (ch : ℕ) : Option PollPoller :=
  match p.pollfds[(p.index ch).toNat]? with
  | none => none
  | some pfd =>
    if p.channels (fd ch) = some ch ∧ p.events ch = 0 ∧ 0 ≤ p.index ch ∧
        pfd.fd = -fd ch - 1 ∧ pfd.events = p.events ch then
      let p' := { p with channels := Function.update p.channels (fd ch) none }
      if (p.index ch).toNat = p.pollfds.length - 1 then
        some { p' with pollfds := p.pollfds.dropLast }
      else p'.moveLast (p.index ch).toNat
    else none

def step (fd : ℕ → ℕ) (p : PollPoller) : PollOp → Option PollPoller
  | .updateChannel ch events => p.updateChannel fd ch events
  | .removeChannel ch => p.removeChannel fd ch

/-- What `poll(2)` fills in. -/
def reported (ready : ℕ → ℕ) (pfd : PollFd) : ℕ :=
  if pfd.fd < 0 then 0 else revents ready pfd.fd.toNat pfd.events

/-- The channels with what they are told, up to `numEvents` of them. -/
def fillActiveChannels (ready : ℕ → ℕ) (channels : ℕ → Option ℕ) :
    ℕ → List PollFd → List (Option ℕ × ℕ)
  | 0, _ | _, [] => []
  | numEvents + 1, pfd :: pfds =>
    if 0 < short (reported ready pfd) then
      (channels pfd.fd.toNat, reported ready pfd) ::
        fillActiveChannels ready channels numEvents pfds
    else fillActiveChannels ready channels (numEvents + 1) pfds

def poll (ready : ℕ → ℕ) (p : PollPoller) : List (Option ℕ × ℕ) :=
  fillActiveChannels ready p.channels (p.pollfds.countP (reported ready · ≠ 0)) p.pollfds

end PollPoller

/-! ## epoll -/

inductive EPollIndex
  | kNew
  | kAdded
  | kDeleted
deriving DecidableEq, Repr

/-- An entry of the kernel: what is waited for, and the pointer that comes back. -/
structure EPollEvent where
  fd : ℕ
  events : ℕ
  ptr : ℕ
deriving DecidableEq, Repr

structure EPollPoller where
  channels : ℕ → Option ℕ
  index : ℕ → EPollIndex
  events : ℕ → ℕ
  kernel : List EPollEvent
  /-- The length of `events_`. -/
  size : ℕ

namespace EPollPoller

def create : EPollPoller := ⟨fun _ => none, fun _ => .kNew, fun _ => 0, [], 16⟩

/-- `epoll_ctl`, which fails if the entry is there already, or if it is not. Failures are ignored. -/
def add (kernel : List EPollEvent) (e : EPollEvent) : List EPollEvent :=
  if kernel.any (·.fd = e.fd) then kernel else kernel ++ [e]

def mod (kernel : List EPollEvent) (e : EPollEvent) : List EPollEvent :=
  kernel.map fun e' => if e'.fd = e.fd then e else e'

def del (kernel : List EPollEvent) (fd : ℕ) : List EPollEvent := kernel.filter (·.fd ≠ fd)

def updateChannel (fd : ℕ → ℕ) (q : EPollPoller) (ch events : ℕ) : Option EPollPoller :=
  let q' := { q with events := Function.update q.events ch events }
  match q.index ch with
  | .kNew =>
    if q.channels (fd ch) = none then
      some { q' with
        channels := Function.update q.channels (fd ch) (some ch)
        index := Function.update q.index ch .kAdded
        kernel := add q.kernel ⟨fd ch, events, ch⟩ }
    else none
  | .kDeleted =>
    if q.channels (fd ch) = some ch then
      some { q' with
        index := Function.update q.index ch .kAdded
        kernel := add q.kernel ⟨fd ch, events, ch⟩ }
    else none
  | .kAdded =>
    if q.channels (fd ch) = some ch then
      if events = 0 then
        some { q' with
          index := Function.update q.index ch .kDeleted
          kernel := del q.kernel (fd ch) }
      else some { q' with kernel := mod q.kernel ⟨fd ch, events, ch⟩ }
    else none

def removeChannel (fd : ℕ → ℕ) (q : EPollPoller) (ch : ℕ) : Option EPollPoller :=
  if q.channels (fd ch) = some ch ∧ q.events ch = 0 ∧ q.index ch ≠ .kNew then
    some { q with
      channels := Function.update q.channels (fd ch) none
      kernel := if q.index ch = .kAdded then del q.kernel (fd ch) else q.kernel
      index := Function.update q.index ch .kNew }
  else none

def step (fd : ℕ → ℕ) (q : EPollPoller) : PollOp → Option EPollPoller
  | .updateChannel ch events => q.updateChannel fd ch events
  | .removeChannel ch => q.removeChannel fd ch

/-- What can be reported. -/
def pending (ready : ℕ → ℕ) (q : EPollPoller) : List (Option ℕ × ℕ) :=
  (q.kernel.filter fun e => revents ready e.fd e.events ≠ 0).map fun e =>
    (some e.ptr, revents ready e.fd e.events)

/-- `epoll_wait` fills `events_`, which grows when it was full. -/
def poll (ready : ℕ → ℕ) (q : EPollPoller) : List (Option ℕ × ℕ) × EPollPoller :=
  let events := (q.pending ready).take q.size
  (events, if events.length = q.size then { q with size := 2 * q.size } else q)

end EPollPoller

/-! ## The pollers follow -/

variable {t t' : Interest} {p : PollPoller} {q : EPollPoller} {op : PollOp} {ch ch' ev ev' i : ℕ}

namespace Interest

/-- The ways in which a step can go. -/
theorem step_cases (h : t.step fd op = some t') :
    (∃ ch ev, op = .updateChannel ch ev ∧ t.table (fd ch) = none ∧ t.used ch = false ∧ ev ≠ 0 ∧
      t' = { t with
        table := Function.update t.table (fd ch) (some (ch, ev))
        used := Function.update t.used ch true }) ∨
    (∃ ch ev old, op = .updateChannel ch ev ∧ t.table (fd ch) = some (ch, old) ∧
      t' = { t with
        table := Function.update t.table (fd ch) (some (ch, ev))
        again := t.again || decide (old = 0 ∧ ev = 0) }) ∨
    (∃ ch, op = .removeChannel ch ∧ t.table (fd ch) = some (ch, 0) ∧
      t' = { t with table := Function.update t.table (fd ch) none }) := by
  cases op with
  | updateChannel ch ev =>
    rw [step] at h
    split at h
    · rename_i hnone
      obtain ⟨⟨hused, hev⟩, ⟨⟩⟩ := Option.ite_none_right_eq_some.mp h
      exact Or.inl ⟨ch, ev, rfl, hnone, hused, hev, rfl⟩
    · rename_i owner old hsome
      obtain ⟨rfl, ⟨⟩⟩ := Option.ite_none_right_eq_some.mp h
      exact Or.inr (Or.inl ⟨owner, ev, old, rfl, hsome, rfl⟩)
  | removeChannel ch =>
    obtain ⟨hsome, ⟨⟩⟩ := Option.ite_none_right_eq_some.mp h
    exact Or.inr (Or.inr ⟨ch, rfl, hsome, rfl⟩)

theorem channels_update {channels : ℕ → Option ℕ}
    (h : ∀ k, channels k = (t.table k).map Prod.fst) (c : Option (ℕ × ℕ)) (k : ℕ) :
    Function.update channels (fd ch) (c.map Prod.fst) k =
      (Function.update t.table (fd ch) c k).map Prod.fst := by
  by_cases hk : k = fd ch
  · rw [hk, Function.update_self, Function.update_self]
  · rw [Function.update_of_ne hk, Function.update_of_ne hk]
    exact h k

/-- What the table says belongs to the channel that it says. -/
def Owned (fd : ℕ → ℕ) (t : Interest) : Prop :=
  ∀ k ch ev, t.table k = some (ch, ev) → k = fd ch ∧ t.used ch = true

theorem Owned.step (h : t.Owned fd) (hstep : t.step fd op = some t') : t'.Owned fd := by
  intro k c e hk
  rcases step_cases hstep with ⟨ch, ev, -, -, -, -, rfl⟩ | ⟨ch, ev, old, -, hold, rfl⟩ |
    ⟨ch, -, -, rfl⟩
  all_goals
    dsimp only at hk ⊢
    by_cases hkey : k = fd ch
  · rw [hkey, Function.update_self] at hk
    cases hk
    exact ⟨hkey, Function.update_self ..⟩
  · rw [Function.update_of_ne hkey] at hk
    obtain ⟨hk', hused⟩ := h k c e hk
    refine ⟨hk', ?_⟩
    by_cases hc : c = ch
    · rw [hc, Function.update_self]
    · rw [Function.update_of_ne hc]
      exact hused
  · rw [hkey, Function.update_self] at hk
    cases hk
    exact ⟨hkey, (h _ _ _ hold).2⟩
  · rw [Function.update_of_ne hkey] at hk
    exact h k c e hk
  · rw [hkey, Function.update_self] at hk
    cases hk
  · rw [Function.update_of_ne hkey] at hk
    exact h k c e hk

end Interest

namespace PollPoller

theorem entryOf_inj {k k' : ℕ} (h : entryOf k ev = entryOf k' ev') : k = k' := by
  have hfd := congrArg PollFd.fd h
  dsimp only [entryOf] at hfd
  split_ifs at hfd <;> omega

/-- Every channel of the table has its place in the array, and there is nothing else in it. -/
structure Follows (p : PollPoller) (fd : ℕ → ℕ) (t : Interest) : Prop where
  owned : t.Owned fd
  channels : ∀ k, p.channels k = (t.table k).map Prod.fst
  place : ∀ ch ev, t.table (fd ch) = some (ch, ev) →
    ∃ i : ℕ, p.index ch = i ∧ p.pollfds[i]? = some (entryOf (fd ch) ev) ∧ p.events ch = ev
  filled : ∀ (i : ℕ) pfd, p.pollfds[i]? = some pfd →
    ∃ ch ev, t.table (fd ch) = some (ch, ev) ∧ p.index ch = i
  fresh : ∀ ch, t.used ch = false → p.index ch = -1

namespace Follows

theorem index_inj (h : p.Follows fd t) (hch : t.table (fd ch) = some (ch, ev))
    (hch' : t.table (fd ch') = some (ch', ev')) (hi : p.index ch = p.index ch') : ch = ch' := by
  obtain ⟨i, hindex, hentry, -⟩ := h.place ch ev hch
  obtain ⟨i', hindex', hentry', -⟩ := h.place ch' ev' hch'
  have hii : i = i' := by omega
  subst hii
  have hfd := entryOf_inj (Option.some.inj (hentry.symm.trans hentry'))
  rw [hfd] at hch
  exact (Prod.mk.inj (Option.some.inj (hch.symm.trans hch'))).1

theorem channels_eq_some (h : p.Follows fd t) (hch : t.table (fd ch) = some (ch, ev)) :
    p.channels (fd ch) = some ch := by
  rw [h.channels, hch]
  rfl

/-- A new channel gets the next place. -/
theorem added (h : p.Follows fd t) (hnone : t.table (fd ch) = none) (hused : t.used ch = false)
    (hev : ev ≠ 0) (howned : Interest.Owned fd { t with
      table := Function.update t.table (fd ch) (some (ch, ev))
      used := Function.update t.used ch true }) :
    ∃ p', p.updateChannel fd ch ev = some p' ∧ p'.Follows fd { t with
      table := Function.update t.table (fd ch) (some (ch, ev))
      used := Function.update t.used ch true } := by
  have hindex : p.index ch < 0 := by
    rw [h.fresh ch hused]
    decide
  have hchannels : p.channels (fd ch) = none := by
    rw [h.channels, hnone]
    rfl
  refine ⟨_, by rw [updateChannel, if_pos hindex, if_pos hchannels], howned,
    Interest.channels_update h.channels (some (ch, ev)), fun c e hc => ?_, fun i pfd hi => ?_,
    fun c hc => ?_⟩
  · dsimp only at hc ⊢
    by_cases hkey : fd c = fd ch
    · rw [hkey, Function.update_self] at hc
      cases hc
      refine ⟨p.pollfds.length, Function.update_self .., ?_, Function.update_self ..⟩
      rw [List.getElem?_concat_length, entryOf, if_neg hev]
    · rw [Function.update_of_ne hkey] at hc
      have hne : c ≠ ch := fun heq => hkey (by rw [heq])
      obtain ⟨i, hi, hentry, hevents⟩ := h.place c e hc
      obtain ⟨hlt, -⟩ := List.getElem?_eq_some_iff.mp hentry
      rw [Function.update_of_ne hne, Function.update_of_ne hne]
      exact ⟨i, hi, (List.getElem?_append_left hlt).trans hentry, hevents⟩
  · dsimp only at hi ⊢
    by_cases hlt : i < p.pollfds.length
    · rw [List.getElem?_append_left hlt] at hi
      obtain ⟨c, e, hc, hci⟩ := h.filled i pfd hi
      have hkey : fd c ≠ fd ch := by
        intro heq
        rw [heq, hnone] at hc
        cases hc
      have hne : c ≠ ch := fun heq => hkey (by rw [heq])
      exact ⟨c, e, by rwa [Function.update_of_ne hkey], by rwa [Function.update_of_ne hne]⟩
    · obtain ⟨hlt', -⟩ := List.getElem?_eq_some_iff.mp hi
      rw [List.length_append, List.length_singleton] at hlt'
      refine ⟨ch, ev, Function.update_self .., ?_⟩
      rw [Function.update_self]
      omega
  · dsimp only at hc ⊢
    by_cases heq : c = ch
    · rw [heq, Function.update_self] at hc
      cases hc
    · rw [Function.update_of_ne heq] at hc ⊢
      exact h.fresh c hc

/-- The events of a channel change in its place. -/
theorem updated {old : ℕ} {again : Bool} (h : p.Follows fd t)
    (hold : t.table (fd ch) = some (ch, old)) (howned : Interest.Owned fd { t with
      table := Function.update t.table (fd ch) (some (ch, ev))
      again := again }) :
    ∃ p', p.updateChannel fd ch ev = some p' ∧ p'.Follows fd { t with
      table := Function.update t.table (fd ch) (some (ch, ev))
      again := again } := by
  obtain ⟨i, hi, hentry, -⟩ := h.place ch old hold
  obtain ⟨hlt, -⟩ := List.getElem?_eq_some_iff.mp hentry
  have hnat : (p.index ch).toNat = i := by omega
  have hfd : p.channels (fd ch) = some ch ∧
      ((entryOf (fd ch) old).fd = fd ch ∨ (entryOf (fd ch) old).fd = -fd ch - 1) := by
    refine ⟨h.channels_eq_some hold, ?_⟩
    rw [entryOf]
    split_ifs
    · exact Or.inr rfl
    · exact Or.inl rfl
  have hupdate : p.updateChannel fd ch ev = some { p with
      pollfds := p.pollfds.set i (entryOf (fd ch) ev)
      events := Function.update p.events ch ev } := by
    rw [updateChannel, if_neg (by omega), hnat, hentry]
    exact if_pos hfd
  refine ⟨_, hupdate, howned, fun k => ?_, fun c e hc => ?_, fun j pfd hj => ?_, h.fresh⟩
  · rw [← Interest.channels_update h.channels (some (ch, ev)) k]
    by_cases hk : k = fd ch
    · rw [hk, Function.update_self]
      exact hfd.1
    · rw [Function.update_of_ne hk]
  · dsimp only at hc ⊢
    by_cases hkey : fd c = fd ch
    · rw [hkey, Function.update_self] at hc
      cases hc
      exact ⟨i, hi, List.getElem?_set_self hlt, Function.update_self ..⟩
    · rw [Function.update_of_ne hkey] at hc
      have hne : c ≠ ch := fun heq => hkey (by rw [heq])
      obtain ⟨j, hj, hentry', hevents⟩ := h.place c e hc
      have hij : i ≠ j := by
        rintro rfl
        exact hne (h.index_inj hc hold (hj.trans hi.symm))
      rw [Function.update_of_ne hne]
      exact ⟨j, hj, (List.getElem?_set_ne hij).trans hentry', hevents⟩
  · dsimp only at hj ⊢
    by_cases hij : i = j
    · subst hij
      exact ⟨ch, ev, Function.update_self .., hi⟩
    · rw [List.getElem?_set_ne hij] at hj
      obtain ⟨c, e, hc, hcj⟩ := h.filled j pfd hj
      have hne : c ≠ ch := by
        rintro rfl
        exact hij (by omega)
      have hkey : fd c ≠ fd ch := by
        intro heq
        rw [heq, hold] at hc
        exact hne (Prod.mk.inj (Option.some.inj hc)).1.symm
      exact ⟨c, e, by rwa [Function.update_of_ne hkey], hcj⟩

/-- The others of the table when a channel is gone from it. -/
theorem others (h : p.Follows fd t) (hold : t.table (fd ch) = some (ch, ev)) (hi : p.index ch = i)
    {c e : ℕ} : Function.update t.table (fd ch) none (fd c) = some (c, e) ↔
      t.table (fd c) = some (c, e) ∧ p.index c ≠ i := by
  by_cases hkey : fd c = fd ch
  · rw [hkey, Function.update_self]
    refine iff_of_false nofun ?_
    rintro ⟨hc, hne⟩
    rw [hold] at hc
    cases hc
    exact hne hi
  · rw [Function.update_of_ne hkey]
    refine (and_iff_left_of_imp fun hc hci => hkey ?_).symm
    rw [h.index_inj hc hold (hci.trans hi.symm)]

/-- The last place becomes free. -/
theorem removed_last (h : p.Follows fd t) (hold : t.table (fd ch) = some (ch, 0))
    (hi : p.index ch = i) (hlast : i = p.pollfds.length - 1)
    (howned : Interest.Owned fd { t with table := Function.update t.table (fd ch) none }) :
    Follows { p with
      channels := Function.update p.channels (fd ch) none
      pollfds := p.pollfds.dropLast } fd
      { t with table := Function.update t.table (fd ch) none } := by
  refine ⟨howned, Interest.channels_update h.channels none, fun c e hc => ?_, fun j pfd hj => ?_,
    h.fresh⟩
  · obtain ⟨hc, hci⟩ := (h.others hold hi).mp hc
    obtain ⟨j, hj, hentry, hevents⟩ := h.place c e hc
    obtain ⟨hlt, -⟩ := List.getElem?_eq_some_iff.mp hentry
    refine ⟨j, hj, ?_, hevents⟩
    rw [List.getElem?_dropLast, if_pos (by omega)]
    exact hentry
  · rw [List.getElem?_dropLast] at hj
    split_ifs at hj with hlt
    obtain ⟨c, e, hc, hcj⟩ := h.filled j pfd hj
    exact ⟨c, e, (h.others hold hi).mpr ⟨hc, by omega⟩, hcj⟩

/-- The channel at the end moves to the place that becomes free. -/
theorem removed_moved (h : p.Follows fd t) (hold : t.table (fd ch) = some (ch, 0))
    (hi : p.index ch = i) (hlt : i < p.pollfds.length - 1)
    (hend : t.table (fd ch') = some (ch', ev')) (hend' : p.index ch' = (p.pollfds.length - 1 : ℕ))
    (howned : Interest.Owned fd { t with table := Function.update t.table (fd ch) none }) :
    Follows { p with
      channels := Function.update p.channels (fd ch) none
      pollfds := (p.pollfds.set i (entryOf (fd ch') ev')).dropLast
      index := Function.update p.index ch' i } fd
      { t with table := Function.update t.table (fd ch) none } := by
  refine ⟨howned, Interest.channels_update h.channels none, fun c e hc => ?_, fun j pfd hj => ?_,
    fun c hc => ?_⟩
  · obtain ⟨hc, hci⟩ := (h.others hold hi).mp hc
    obtain ⟨j, hj, hentry, hevents⟩ := h.place c e hc
    obtain ⟨hjlt, -⟩ := List.getElem?_eq_some_iff.mp hentry
    dsimp only
    by_cases hce : c = ch'
    · subst hce
      rw [hend] at hc
      cases hc
      refine ⟨i, Function.update_self .., ?_, hevents⟩
      rw [List.getElem?_dropLast, List.length_set, if_pos hlt]
      exact List.getElem?_set_self (by omega)
    · have hjend : j ≠ p.pollfds.length - 1 := by
        rintro rfl
        exact hce (h.index_inj hc hend (hj.trans hend'.symm))
      rw [Function.update_of_ne hce]
      refine ⟨j, hj, ?_, hevents⟩
      rw [List.getElem?_dropLast, List.length_set, if_pos (by omega),
        List.getElem?_set_ne (by omega)]
      exact hentry
  · rw [List.getElem?_dropLast, List.length_set] at hj
    split_ifs at hj with hjlt
    dsimp only
    by_cases hij : i = j
    · refine ⟨ch', ev', (h.others hold hi).mpr ⟨hend, by omega⟩, ?_⟩
      rw [Function.update_self, hij]
    · rw [List.getElem?_set_ne hij] at hj
      obtain ⟨c, e, hc, hcj⟩ := h.filled j pfd hj
      have hce : c ≠ ch' := by
        rintro rfl
        omega
      refine ⟨c, e, (h.others hold hi).mpr ⟨hc, by omega⟩, ?_⟩
      rwa [Function.update_of_ne hce]
  · have hce : c ≠ ch' := by
      rintro rfl
      have hused := (h.owned _ _ _ hend).2
      rw [hused] at hc
      cases hc
    dsimp only
    rw [Function.update_of_ne hce]
    exact h.fresh c hc

theorem removed (h : p.Follows fd t) (hold : t.table (fd ch) = some (ch, 0))
    (howned : Interest.Owned fd { t with table := Function.update t.table (fd ch) none }) :
    ∃ p', p.removeChannel fd ch = some p' ∧
      p'.Follows fd { t with table := Function.update t.table (fd ch) none } := by
  obtain ⟨i, hi, hentry, hevents⟩ := h.place ch 0 hold
  obtain ⟨hlt, -⟩ := List.getElem?_eq_some_iff.mp hentry
  have hnat : (p.index ch).toNat = i := by omega
  have hasserted : p.channels (fd ch) = some ch ∧ p.events ch = 0 ∧ 0 ≤ p.index ch ∧
      (entryOf (fd ch) 0).fd = -fd ch - 1 ∧ (entryOf (fd ch) 0).events = p.events ch := by
    refine ⟨h.channels_eq_some hold, hevents, by omega, rfl, ?_⟩
    rw [hevents]
    rfl
  rw [removeChannel, hnat, hentry]
  dsimp only
  rw [if_pos hasserted]
  by_cases hlast : i = p.pollfds.length - 1
  · rw [if_pos hlast]
    exact ⟨_, rfl, h.removed_last hold hi hlast howned⟩
  · rw [if_neg hlast]
    have hend : p.pollfds.length - 1 < p.pollfds.length := by omega
    obtain ⟨ch', ev', hch', hindex⟩ := h.filled _ _ (List.getElem?_eq_getElem hend)
    obtain ⟨j, hj, hentry', -⟩ := h.place ch' ev' hch'
    have hjend : j = p.pollfds.length - 1 := by omega
    have hgetLast : p.pollfds.getLast? = some (entryOf (fd ch') ev') := by
      rw [List.getLast?_eq_getElem?, ← hjend]
      exact hentry'
    have hback : (if (entryOf (fd ch') ev').fd < 0 then -(entryOf (fd ch') ev').fd - 1
        else (entryOf (fd ch') ev').fd) = fd ch' := by
      dsimp only [entryOf]
      split_ifs <;> omega
    have hne : fd ch' ≠ fd ch := by
      intro heq
      rw [heq, hold] at hch'
      cases hch'
      omega
    have hchannel : Function.update p.channels (fd ch) none (fd ch') = some ch' := by
      rw [Function.update_of_ne hne]
      exact h.channels_eq_some hch'
    refine ⟨_, ?_, h.removed_moved hold hi (by omega) hch' hindex howned⟩
    dsimp only [moveLast]
    rw [hgetLast]
    dsimp only
    rw [hback, Int.toNat_natCast, hchannel]

theorem step (h : p.Follows fd t) (hstep : t.step fd op = some t') :
    ∃ p', p.step fd op = some p' ∧ p'.Follows fd t' := by
  have howned := h.owned.step hstep
  rcases Interest.step_cases hstep with ⟨ch, ev, rfl, hnone, hused, hev, rfl⟩ |
    ⟨ch, ev, old, rfl, hold, rfl⟩ | ⟨ch, rfl, hold, rfl⟩
  · exact h.added hnone hused hev howned
  · exact h.updated hold howned
  · exact h.removed hold howned

end Follows

theorem follows_create : create.Follows fd .create where
  owned _ _ _ h := nomatch h
  channels _ := rfl
  place _ _ h := nomatch h
  filled i _ h := by simp [create] at h
  fresh _ _ := rfl

end PollPoller

namespace EPollPoller

/-- Where the kernel has the channel, it has events, unless it was told again that it has none. -/
def Fits (index : EPollIndex) (ev : ℕ) (again : Bool) : Prop :=
  index = .kAdded ∧ (ev = 0 → again = true) ∨ index = .kDeleted ∧ ev = 0

theorem Fits.mono {index : EPollIndex} {again : Bool} (h : Fits index ev again) (b : Bool) :
    Fits index ev (again || b) :=
  h.imp_left fun hadded => ⟨hadded.1, fun hev => by rw [hadded.2 hev]; rfl⟩

/-- The kernel has an entry for each channel that is said to be added. -/
structure Follows (q : EPollPoller) (fd : ℕ → ℕ) (t : Interest) : Prop where
  owned : t.Owned fd
  channels : ∀ k, q.channels k = (t.table k).map Prod.fst
  index : ∀ ch ev, t.table (fd ch) = some (ch, ev) →
    Fits (q.index ch) ev t.again ∧ q.events ch = ev
  fresh : ∀ ch, (∀ ev, t.table (fd ch) ≠ some (ch, ev)) → q.index ch = .kNew
  kernel : ∀ e, e ∈ q.kernel ↔
    t.table e.fd = some (e.ptr, e.events) ∧ q.index e.ptr = .kAdded
  nodup : (q.kernel.map EPollEvent.fd).Nodup

section kernel
variable {kernel kernel' : List EPollEvent} {e e' : EPollEvent} {k : ℕ}

theorem add_eq (h : ∀ e' ∈ kernel, e'.fd ≠ e.fd) : add kernel e = kernel ++ [e] := by
  refine if_neg ?_
  rw [List.any_eq_true]
  rintro ⟨e', he', hfd⟩
  exact h e' he' (of_decide_eq_true hfd)

theorem mem_mod : e' ∈ mod kernel e ↔
    e' ∈ kernel ∧ e'.fd ≠ e.fd ∨ e' = e ∧ ∃ e₁ ∈ kernel, e₁.fd = e.fd := by
  rw [mod, List.mem_map]
  constructor
  · rintro ⟨e₁, he₁, rfl⟩
    split_ifs with hfd
    · exact Or.inr ⟨rfl, e₁, he₁, hfd⟩
    · exact Or.inl ⟨he₁, hfd⟩
  · rintro (⟨he', hfd⟩ | ⟨rfl, e₁, he₁, hfd⟩)
    · exact ⟨e', he', if_neg hfd⟩
    · exact ⟨e₁, he₁, if_pos hfd⟩

theorem map_fd_mod : (mod kernel e).map EPollEvent.fd = kernel.map EPollEvent.fd := by
  rw [mod, List.map_map]
  refine List.map_congr_left fun e₁ _ => ?_
  rw [Function.comp_apply]
  split_ifs with hfd
  · exact hfd.symm
  · rfl

theorem mem_del : e ∈ del kernel k ↔ e ∈ kernel ∧ e.fd ≠ k := by
  rw [del, List.mem_filter, decide_eq_true_eq]

end kernel

namespace Follows

/-- What the kernel is to have when a channel has got other events. -/
theorem kernel_update {kernel : List EPollEvent} {index : EPollIndex} (h : q.Follows fd t)
    (hkernel : ∀ e, e ∈ kernel ↔
      e ∈ q.kernel ∧ e.fd ≠ fd ch ∨ e = ⟨fd ch, ev, ch⟩ ∧ index = .kAdded) (e : EPollEvent) :
    e ∈ kernel ↔ Function.update t.table (fd ch) (some (ch, ev)) e.fd = some (e.ptr, e.events) ∧
      Function.update q.index ch index e.ptr = .kAdded := by
  rw [hkernel, h.kernel]
  by_cases hkey : e.fd = fd ch
  · rw [hkey, Function.update_self]
    constructor
    · rintro (⟨-, hne⟩ | ⟨rfl, hadded⟩)
      · exact absurd rfl hne
      · exact ⟨rfl, (Function.update_self ..).trans hadded⟩
    · rintro ⟨heq, hadded⟩
      obtain ⟨hptr, hevents⟩ := Prod.mk.inj (Option.some.inj heq)
      rw [← hptr, Function.update_self] at hadded
      refine Or.inr ⟨?_, hadded⟩
      rw [← hkey, hptr, hevents]
  · rw [Function.update_of_ne hkey]
    have hsame (htable : t.table e.fd = some (e.ptr, e.events)) :
        Function.update q.index ch index e.ptr = q.index e.ptr := by
      refine Function.update_of_ne (fun hptr => hkey ?_) ..
      rw [(h.owned _ _ _ htable).1, hptr]
    constructor
    · rintro (⟨⟨htable, hadded⟩, -⟩ | ⟨rfl, -⟩)
      · exact ⟨htable, (hsame htable).trans hadded⟩
      · exact absurd rfl hkey
    · rintro ⟨htable, hadded⟩
      exact Or.inl ⟨⟨htable, (hsame htable).symm.trans hadded⟩, hkey⟩

/-- A channel with other events: its index says whether the kernel has it. -/
theorem set {used : ℕ → Bool} {b : Bool} {channels : ℕ → Option ℕ} {kernel : List EPollEvent}
    {index : EPollIndex} (h : q.Follows fd t)
    (howned : Interest.Owned fd
      ⟨Function.update t.table (fd ch) (some (ch, ev)), used, t.again || b⟩)
    (halone : ∀ c old, t.table (fd ch) = some (c, old) → c = ch)
    (hchannels : channels = Function.update q.channels (fd ch) (some ch))
    (hfits : Fits index ev (t.again || b))
    (hkernel : ∀ e, e ∈ kernel ↔
      e ∈ q.kernel ∧ e.fd ≠ fd ch ∨ e = ⟨fd ch, ev, ch⟩ ∧ index = .kAdded)
    (hnodup : (kernel.map EPollEvent.fd).Nodup) :
    Follows { q with
      channels := channels
      index := Function.update q.index ch index
      events := Function.update q.events ch ev
      kernel := kernel } fd
      ⟨Function.update t.table (fd ch) (some (ch, ev)), used, t.again || b⟩ := by
  refine ⟨howned, fun k => ?_, fun c e hc => ?_, fun c hc => ?_, h.kernel_update hkernel, hnodup⟩
  · rw [hchannels]
    exact Interest.channels_update h.channels (some (ch, ev)) k
  · dsimp only at hc ⊢
    by_cases hkey : fd c = fd ch
    · rw [hkey, Function.update_self] at hc
      cases hc
      rw [Function.update_self, Function.update_self]
      exact ⟨hfits, rfl⟩
    · rw [Function.update_of_ne hkey] at hc
      have hne : c ≠ ch := fun heq => hkey (by rw [heq])
      rw [Function.update_of_ne hne, Function.update_of_ne hne]
      obtain ⟨hfits, hevents⟩ := h.index c e hc
      exact ⟨hfits.mono b, hevents⟩
  · have hne : c ≠ ch := by
      rintro rfl
      exact hc ev (Function.update_self ..)
    dsimp only at hc ⊢
    rw [Function.update_of_ne hne]
    refine h.fresh c fun old hold => ?_
    by_cases hkey : fd c = fd ch
    · rw [hkey] at hold
      exact hne (halone c old hold)
    · exact hc old (by rwa [Function.update_of_ne hkey])

theorem channels_eq_some (h : q.Follows fd t) (hch : t.table (fd ch) = some (ch, ev)) :
    q.channels (fd ch) = some ch ∧ Function.update q.channels (fd ch) (some ch) = q.channels := by
  have hsome : q.channels (fd ch) = some ch := by
    rw [h.channels, hch]
    rfl
  exact ⟨hsome, by rw [← hsome, Function.update_eq_self]⟩

/-- The kernel has no entry for the file descriptor. -/
theorem not_mem_kernel (h : q.Follows fd t) (ch : ℕ)
    (hch : ∀ c old, t.table (fd ch) = some (c, old) → q.index c ≠ .kAdded) (e : EPollEvent)
    (he : e ∈ q.kernel) : e.fd ≠ fd ch := by
  intro hfd
  obtain ⟨htable, hadded⟩ := (h.kernel e).mp he
  rw [hfd] at htable
  exact hch _ _ htable hadded

/-- `EPOLL_CTL_ADD` finds no entry. -/
theorem add_spec (h : q.Follows fd t) (ch ev : ℕ)
    (hch : ∀ c old, t.table (fd ch) = some (c, old) → q.index c ≠ .kAdded) :
    (∀ e, e ∈ add q.kernel ⟨fd ch, ev, ch⟩ ↔ e ∈ q.kernel ∧ e.fd ≠ fd ch ∨
      e = ⟨fd ch, ev, ch⟩ ∧ EPollIndex.kAdded = .kAdded) ∧
    ((add q.kernel ⟨fd ch, ev, ch⟩).map EPollEvent.fd).Nodup := by
  have hnew := h.not_mem_kernel ch hch
  rw [add_eq hnew]
  refine ⟨fun e => ?_, ?_⟩
  · rw [List.mem_append, List.mem_singleton, and_iff_left rfl]
    exact or_congr_left (and_iff_left_of_imp (hnew e)).symm
  · rw [List.map_append, List.map_singleton]
    refine List.nodup_append.mpr ⟨h.nodup, List.nodup_singleton _, ?_⟩
    rintro k hk k' hk' rfl
    obtain ⟨e, he, rfl⟩ := List.mem_map.mp hk
    exact hnew e he (List.mem_singleton.mp hk')

theorem added (h : q.Follows fd t) (hnone : t.table (fd ch) = none) (hev : ev ≠ 0)
    (howned : Interest.Owned fd { t with
      table := Function.update t.table (fd ch) (some (ch, ev))
      used := Function.update t.used ch true }) :
    ∃ q', q.updateChannel fd ch ev = some q' ∧ q'.Follows fd { t with
      table := Function.update t.table (fd ch) (some (ch, ev))
      used := Function.update t.used ch true } := by
  have hindex : q.index ch = .kNew := h.fresh ch fun old => by
    rw [hnone]
    exact nofun
  have hchannels : q.channels (fd ch) = none := by
    rw [h.channels, hnone]
    rfl
  have hfree (c old : ℕ) : t.table (fd ch) ≠ some (c, old) := by
    rw [hnone]
    exact nofun
  obtain ⟨hkernel, hnodup⟩ := h.add_spec ch ev fun c old hold => absurd hold (hfree c old)
  rw [← Bool.or_false t.again] at howned ⊢
  refine ⟨_, ?_, h.set howned (fun c old hold => absurd hold (hfree c old)) rfl
    (Or.inl ⟨rfl, fun hzero => absurd hzero hev⟩) hkernel hnodup⟩
  rw [updateChannel, hindex]
  exact if_pos hchannels

theorem updated {old : ℕ} (h : q.Follows fd t) (hold : t.table (fd ch) = some (ch, old))
    (howned : Interest.Owned fd { t with
      table := Function.update t.table (fd ch) (some (ch, ev))
      again := t.again || decide (old = 0 ∧ ev = 0) }) :
    ∃ q', q.updateChannel fd ch ev = some q' ∧ q'.Follows fd { t with
      table := Function.update t.table (fd ch) (some (ch, ev))
      again := t.again || decide (old = 0 ∧ ev = 0) } := by
  obtain ⟨hchannels, hsame⟩ := h.channels_eq_some hold
  obtain ⟨hfits, -⟩ := h.index ch old hold
  have halone (c o : ℕ) (hc : t.table (fd ch) = some (c, o)) : c = ch := by
    rw [hold] at hc
    cases hc
    rfl
  rw [updateChannel]
  rcases hfits with ⟨hindex, -⟩ | ⟨hindex, rfl⟩
  · rw [hindex]
    dsimp only
    rw [if_pos hchannels]
    by_cases hev : ev = 0
    · have hkernel (e : EPollEvent) : e ∈ del q.kernel (fd ch) ↔ e ∈ q.kernel ∧ e.fd ≠ fd ch ∨
          e = ⟨fd ch, ev, ch⟩ ∧ EPollIndex.kDeleted = .kAdded := by
        rw [mem_del]
        exact (or_iff_left nofun).symm
      rw [if_pos hev]
      exact ⟨_, rfl, h.set howned halone hsame.symm (Or.inr ⟨rfl, hev⟩) hkernel
        ((List.filter_sublist.map EPollEvent.fd).nodup h.nodup)⟩
    · have hkernel (e : EPollEvent) : e ∈ mod q.kernel ⟨fd ch, ev, ch⟩ ↔
          e ∈ q.kernel ∧ e.fd ≠ fd ch ∨ e = ⟨fd ch, ev, ch⟩ ∧ EPollIndex.kAdded = .kAdded := by
        rw [mem_mod]
        refine or_congr_right (and_congr_right fun _ => iff_of_true ?_ rfl)
        exact ⟨⟨fd ch, old, ch⟩, (h.kernel _).mpr ⟨hold, hindex⟩, rfl⟩
      have hset := h.set howned halone hsame.symm (Or.inl ⟨rfl, fun hzero => absurd hzero hev⟩)
        hkernel (by rw [map_fd_mod]; exact h.nodup)
      rw [if_neg hev]
      rw [← hindex, Function.update_eq_self] at hset
      exact ⟨_, rfl, hset⟩
  · -- the channel had no events, and goes back to the kernel even if it has none now
    obtain ⟨hkernel, hnodup⟩ := h.add_spec ch ev fun c o hc => by
      rw [halone c o hc, hindex]
      exact nofun
    rw [hindex]
    dsimp only
    rw [if_pos hchannels]
    refine ⟨_, rfl, h.set howned halone hsame.symm (Or.inl ⟨rfl, fun hev => ?_⟩) hkernel hnodup⟩
    rw [decide_eq_true (⟨rfl, hev⟩ : 0 = 0 ∧ ev = 0), Bool.or_true]

/-- A channel that the kernel still has is taken from it. -/
theorem removed (h : q.Follows fd t) (hold : t.table (fd ch) = some (ch, 0))
    (howned : Interest.Owned fd { t with table := Function.update t.table (fd ch) none }) :
    ∃ q', q.removeChannel fd ch = some q' ∧
      q'.Follows fd { t with table := Function.update t.table (fd ch) none } := by
  obtain ⟨hchannels, -⟩ := h.channels_eq_some hold
  obtain ⟨hfits, hevents⟩ := h.index ch 0 hold
  have hasserted : q.channels (fd ch) = some ch ∧ q.events ch = 0 ∧ q.index ch ≠ .kNew := by
    refine ⟨hchannels, hevents, fun hnew => ?_⟩
    rcases hfits with ⟨hindex, -⟩ | ⟨hindex, -⟩ <;> cases hnew.symm.trans hindex
  have hkernel (e : EPollEvent) :
      e ∈ (if q.index ch = .kAdded then del q.kernel (fd ch) else q.kernel) ↔
        e ∈ q.kernel ∧ e.fd ≠ fd ch := by
    split_ifs with hindex
    · exact mem_del
    · refine (and_iff_left_of_imp (h.not_mem_kernel ch (fun c old hc => ?_) e)).symm
      rw [hold] at hc
      cases hc
      exact hindex
  have hnodup : ((if q.index ch = .kAdded then del q.kernel (fd ch) else q.kernel).map
      EPollEvent.fd).Nodup := by
    split_ifs
    · exact (List.filter_sublist.map EPollEvent.fd).nodup h.nodup
    · exact h.nodup
  rw [removeChannel, if_pos hasserted]
  refine ⟨_, rfl, howned, Interest.channels_update h.channels none, fun c e hc => ?_,
    fun c hc => ?_, fun e => ?_, hnodup⟩
  · dsimp only at hc ⊢
    by_cases hkey : fd c = fd ch
    · rw [hkey, Function.update_self] at hc
      cases hc
    · rw [Function.update_of_ne hkey] at hc
      rw [Function.update_of_ne fun heq => hkey (by rw [heq])]
      exact h.index c e hc
  · dsimp only at hc ⊢
    by_cases hne : c = ch
    · rw [hne, Function.update_self]
    · rw [Function.update_of_ne hne]
      refine h.fresh c fun old hc' => ?_
      by_cases hkey : fd c = fd ch
      · rw [hkey, hold] at hc'
        cases hc'
        exact hne rfl
      · exact hc old (by rwa [Function.update_of_ne hkey])
  · dsimp only
    rw [hkernel, h.kernel]
    by_cases hkey : e.fd = fd ch
    · rw [hkey, Function.update_self]
      exact iff_of_false (fun hmem => hmem.2 rfl) (fun hmem => nomatch hmem.1)
    · rw [Function.update_of_ne hkey, and_iff_left hkey]
      refine and_congr_right fun htable => ?_
      rw [Function.update_of_ne fun hptr => hkey ?_]
      rw [(h.owned _ _ _ htable).1, hptr]

theorem step (h : q.Follows fd t) (hstep : t.step fd op = some t') :
    ∃ q', q.step fd op = some q' ∧ q'.Follows fd t' := by
  have howned := h.owned.step hstep
  rcases Interest.step_cases hstep with ⟨ch, ev, rfl, hnone, -, hev, rfl⟩ |
    ⟨ch, ev, old, rfl, hold, rfl⟩ | ⟨ch, rfl, hold, rfl⟩
  · exact h.added hnone hev howned
  · exact h.updated hold howned
  · exact h.removed hold howned

end Follows

theorem follows_create : create.Follows fd .create where
  owned _ _ _ h := nomatch h
  channels _ := rfl
  index _ _ h := nomatch h
  fresh _ _ := rfl
  kernel _ := iff_of_false List.not_mem_nil fun h => nomatch h.1
  nodup := List.nodup_nil

end EPollPoller

/-! ## The same channels -/

/-- What a channel is to be told. -/
def Interest.Tells (fd : ℕ → ℕ) (t : Interest) (ready : ℕ → ℕ) (r : Option ℕ × ℕ) : Prop :=
  ∃ ch ev, t.table (fd ch) = some (ch, ev) ∧ ev ≠ 0 ∧
    r = (some ch, revents ready (fd ch) ev) ∧ r.2 ≠ 0

/-- There is one thing that a channel is to be told. -/
theorem Interest.Tells.eq_of_fst {ready : ℕ → ℕ} {r r' : Option ℕ × ℕ} (h : t.Tells fd ready r)
    (h' : t.Tells fd ready r') (heq : r.1 = r'.1) : r = r' := by
  obtain ⟨ch, ev, hch, -, rfl, -⟩ := h
  obtain ⟨ch', ev', hch', -, rfl, -⟩ := h'
  obtain rfl : ch = ch' := Option.some.inj heq
  cases hch.symm.trans hch'
  rfl

theorem short_pos_iff {n : ℕ} (h : n < 32768) : 0 < short n ↔ n ≠ 0 := by
  rw [short, if_pos (by omega)]
  omega

variable {ready : ℕ → ℕ}

theorem revents_lt (hready : ∀ k, ready k < 32768) (k events : ℕ) :
    revents ready k events < 32768 := Nat.lt_of_le_of_lt Nat.and_le_left (hready k)

namespace PollPoller

theorem reported_lt (hready : ∀ k, ready k < 32768) (pfd : PollFd) :
    reported ready pfd < 32768 := by
  rw [reported]
  split_ifs
  · decide
  · exact revents_lt hready ..

/-- The loop ends when all that was counted has been found. -/
theorem fillActiveChannels_eq (hready : ∀ k, ready k < 32768) (channels : ℕ → Option ℕ)
    (pfds : List PollFd) :
    fillActiveChannels ready channels (pfds.countP (reported ready · ≠ 0)) pfds =
      (pfds.filter (reported ready · ≠ 0)).map fun pfd =>
        (channels pfd.fd.toNat, reported ready pfd) := by
  induction pfds with
  | nil => rfl
  | cons pfd pfds ih =>
    have hpos := short_pos_iff (reported_lt hready pfd)
    by_cases hzero : reported ready pfd = 0
    · rw [List.countP_cons_of_neg (by simpa using hzero),
        List.filter_cons_of_neg (by simpa using hzero), ← ih]
      cases pfds.countP (reported ready · ≠ 0) with
      | zero => rw [fillActiveChannels, fillActiveChannels]
      | succ n => rw [fillActiveChannels, if_neg (by rw [hpos]; exact not_not.mpr hzero)]
    · rw [List.countP_cons_of_pos (by simpa using hzero),
        List.filter_cons_of_pos (by simpa using hzero), List.map_cons, fillActiveChannels, if_pos (hpos.mpr hzero), ih]

theorem reported_entryOf {k : ℕ} (hlt : ev < 32768) :
    reported ready (entryOf k ev) = if ev = 0 then 0 else revents ready k ev := by
  rw [reported, entryOf]
  dsimp only
  split_ifs with hev hneg hneg
  · rfl
  · omega
  · omega
  · rw [Int.toNat_natCast, Nat.mod_eq_of_lt (by omega)]

namespace Follows

theorem entry_at (h : p.Follows fd t) {pfd : PollFd} (hpfd : p.pollfds[i]? = some pfd) :
    ∃ ch ev, t.table (fd ch) = some (ch, ev) ∧ p.index ch = i ∧ pfd = entryOf (fd ch) ev := by
  obtain ⟨ch, ev, hch, hi⟩ := h.filled i pfd hpfd
  obtain ⟨j, hj, hentry, -⟩ := h.place ch ev hch
  have hij : i = j := by omega
  subst hij
  exact ⟨ch, ev, hch, hi, Option.some.inj (hpfd.symm.trans hentry)⟩

theorem pollfds_nodup (h : p.Follows fd t) : p.pollfds.Nodup := by
  refine List.nodup_iff_getElem?_ne_getElem?.mpr fun i j hij hj heq => ?_
  have hpfd := List.getElem?_eq_getElem hj
  obtain ⟨ch, ev, hch, hi, hentry⟩ := h.entry_at (heq.trans hpfd)
  obtain ⟨ch', ev', hch', hj', hentry'⟩ := h.entry_at hpfd
  have hfd := entryOf_inj (hentry.symm.trans hentry')
  rw [hfd, hch'] at hch
  cases hch
  omega

/-- `PollPoller` tells each channel once what it is to be told. -/
theorem poll_spec (h : p.Follows fd t) (hready : ∀ k, ready k < 32768)
    (hlevel : ∀ k ch ev, t.table k = some (ch, ev) → ev < 32768) :
    (p.poll ready).Nodup ∧ ∀ r, r ∈ p.poll ready ↔ t.Tells fd ready r := by
  have htold (pfd : PollFd) (hmem : pfd ∈ p.pollfds) (hne : reported ready pfd ≠ 0) :
      ∃ ch ev, t.table (fd ch) = some (ch, ev) ∧ ev ≠ 0 ∧ pfd = entryOf (fd ch) ev ∧
        p.channels pfd.fd.toNat = some ch ∧ reported ready pfd = revents ready (fd ch) ev := by
    obtain ⟨i, hi⟩ := List.mem_iff_getElem?.mp hmem
    obtain ⟨ch, ev, hch, -, rfl⟩ := h.entry_at hi
    rw [reported_entryOf (hlevel _ _ _ hch)] at hne ⊢
    have hev : ev ≠ 0 := fun hev => hne (if_pos hev)
    refine ⟨ch, ev, hch, hev, rfl, ?_, if_neg hev⟩
    rw [entryOf, if_neg hev, Int.toNat_natCast]
    exact h.channels_eq_some hch
  rw [poll, fillActiveChannels_eq hready]
  constructor
  · refine List.Nodup.map_on ?_ (h.pollfds_nodup.filter _)
    intro pfd hpfd pfd' hpfd' heq
    obtain ⟨hmem, hne⟩ := List.mem_filter.mp hpfd
    obtain ⟨hmem', hne'⟩ := List.mem_filter.mp hpfd'
    obtain ⟨ch, ev, hch, -, hentry, hchannel, -⟩ := htold pfd hmem (of_decide_eq_true hne)
    obtain ⟨ch', ev', hch', -, hentry', hchannel', -⟩ := htold pfd' hmem' (of_decide_eq_true hne')
    have hsome := (Prod.mk.inj heq).1
    rw [hchannel, hchannel'] at hsome
    cases hsome
    rw [hch] at hch'
    cases hch'
    exact hentry.trans hentry'.symm
  · intro r
    rw [List.mem_map]
    constructor
    · rintro ⟨pfd, hpfd, rfl⟩
      obtain ⟨hmem, hne⟩ := List.mem_filter.mp hpfd
      obtain ⟨ch, ev, hch, hev, -, hchannel, hreported⟩ := htold pfd hmem (of_decide_eq_true hne)
      exact ⟨ch, ev, hch, hev, by rw [hchannel, hreported], of_decide_eq_true hne⟩
    · rintro ⟨ch, ev, hch, hev, rfl, hne⟩
      obtain ⟨i, -, hentry, -⟩ := h.place ch ev hch
      have hreported : reported ready (entryOf (fd ch) ev) = revents ready (fd ch) ev :=
        (reported_entryOf (hlevel _ _ _ hch)).trans (if_neg hev)
      refine ⟨entryOf (fd ch) ev, List.mem_filter.mpr ⟨List.mem_of_getElem? hentry, ?_⟩, ?_⟩
      · rw [hreported]
        exact decide_eq_true hne
      · rw [hreported, entryOf, if_neg hev, Int.toNat_natCast, h.channels_eq_some hch]

end Follows

end PollPoller

namespace EPollPoller

/-- The channel has events. -/
def asked (q : EPollPoller) (r : Option ℕ × ℕ) : Bool := r.1.any (q.events · ≠ 0)

namespace Follows

theorem fd_ptr (h : q.Follows fd t) {e : EPollEvent} (he : e ∈ q.kernel) : e.fd = fd e.ptr :=
  (h.owned _ _ _ ((h.kernel e).mp he).1).1

theorem events_ptr (h : q.Follows fd t) {e : EPollEvent} (he : e ∈ q.kernel) :
    t.table (fd e.ptr) = some (e.ptr, e.events) ∧ q.events e.ptr = e.events := by
  have htable := ((h.kernel e).mp he).1
  rw [h.fd_ptr he] at htable
  exact ⟨htable, (h.index _ _ htable).2⟩

theorem pending_nodup (h : q.Follows fd t) (ready : ℕ → ℕ) : (q.pending ready).Nodup := by
  refine List.Nodup.map_on ?_ (List.Nodup.filter _ (List.Nodup.of_map _ h.nodup))
  intro e he e' he' heq
  have hmem := (List.mem_filter.mp he).1
  have hmem' := (List.mem_filter.mp he').1
  have hptr : e.ptr = e'.ptr := Option.some.inj (Prod.mk.inj heq).1
  have hfd : e.fd = e'.fd := by rw [h.fd_ptr hmem, h.fd_ptr hmem', hptr]
  exact List.inj_on_of_nodup_map h.nodup hmem hmem' hfd

/-- `EPollPoller` tells the channels that have events what they are to be told. -/
theorem mem_pending (h : q.Follows fd t) (ready : ℕ → ℕ) (r : Option ℕ × ℕ) :
    r ∈ (q.pending ready).filter q.asked ↔ t.Tells fd ready r := by
  rw [List.mem_filter, pending, List.mem_map]
  constructor
  · rintro ⟨⟨e, he, rfl⟩, hasked⟩
    obtain ⟨hmem, hne⟩ := List.mem_filter.mp he
    obtain ⟨htable, hevents⟩ := h.events_ptr hmem
    have hev : q.events e.ptr ≠ 0 := of_decide_eq_true hasked
    rw [hevents] at hev
    exact ⟨e.ptr, e.events, htable, hev, by rw [← h.fd_ptr hmem], of_decide_eq_true hne⟩
  · rintro ⟨ch, ev, hch, hev, rfl, hne⟩
    obtain ⟨hfits, hevents⟩ := h.index ch ev hch
    have hadded := (hfits.resolve_right fun hdeleted => hev hdeleted.2).1
    have hmem : (⟨fd ch, ev, ch⟩ : EPollEvent) ∈ q.kernel := (h.kernel _).mpr ⟨hch, hadded⟩
    refine ⟨⟨⟨fd ch, ev, ch⟩, List.mem_filter.mpr ⟨hmem, decide_eq_true hne⟩, rfl⟩, ?_⟩
    refine decide_eq_true ?_
    rwa [hevents]

/-- The kernel has no other channels, if none was updated to no events again. -/
theorem filter_pending (h : q.Follows fd t) (hagain : t.again = false) (ready : ℕ → ℕ) :
    (q.pending ready).filter q.asked = q.pending ready := by
  refine List.filter_eq_self.mpr fun r hr => ?_
  obtain ⟨e, he, rfl⟩ := List.mem_map.mp hr
  have hmem := (List.mem_filter.mp he).1
  obtain ⟨htable, hevents⟩ := h.events_ptr hmem
  refine decide_eq_true fun hzero => ?_
  rw [hevents] at hzero
  rcases (h.index _ _ htable).1 with ⟨-, htwice⟩ | ⟨hdeleted, -⟩
  · cases hagain.symm.trans (htwice hzero)
  · cases hdeleted.symm.trans ((h.kernel e).mp hmem).2

end Follows

end EPollPoller

/-- Over all calls that use a poller as it is to be used, neither poller fails an assertion, and
both have exactly the channels that there are. While no event is edge-triggered and no more channels
are ready than `EPollPoller` has room for, the two tell the channels with events the same, each of
them once and all that it is to be told. `EPollPoller` tells others only if one of them was updated
to no events again. -/
theorem pollers_agree {ops : List PollOp} (h : run (Interest.step fd) .create ops = some t) :
    ∃ p q, run (PollPoller.step fd) .create ops = some p ∧
      run (EPollPoller.step fd) .create ops = some q ∧ p.Follows fd t ∧ q.Follows fd t ∧
      ∀ ready : ℕ → ℕ, (∀ k, ready k < 32768) →
        (∀ k ch ev, t.table k = some (ch, ev) → ev < 32768) →
        (q.pending ready).length ≤ q.size →
        ((p.poll ready).map Prod.fst).Nodup ∧ (∀ r, r ∈ p.poll ready ↔ t.Tells fd ready r) ∧
        (p.poll ready).Perm ((q.poll ready).1.filter q.asked) ∧
        (t.again = false → (p.poll ready).Perm (q.poll ready).1) := by
  obtain ⟨p, hp, hfollows⟩ := run_simulates (Interest.step fd) (PollPoller.step fd)
    (R := fun t p => p.Follows fd t) (fun hf hs => hf.step hs) PollPoller.follows_create h
  obtain ⟨q, hq, hfollows'⟩ := run_simulates (Interest.step fd) (EPollPoller.step fd)
    (R := fun t q => q.Follows fd t) (fun hf hs => hf.step hs) EPollPoller.follows_create h
  refine ⟨p, q, hp, hq, hfollows, hfollows', fun ready hready hlevel hsize => ?_⟩
  obtain ⟨hnodup, hmem⟩ := hfollows.poll_spec hready hlevel
  have hall : (q.poll ready).1 = q.pending ready := List.take_of_length_le hsize
  have hperm : (p.poll ready).Perm ((q.pending ready).filter q.asked) :=
    (List.perm_ext_iff_of_nodup hnodup ((hfollows'.pending_nodup ready).filter _)).mpr fun r =>
      (hmem r).trans (hfollows'.mem_pending ready r).symm
  have honce : ((p.poll ready).map Prod.fst).Nodup :=
    hnodup.map_on fun r hr r' hr' => ((hmem r).mp hr).eq_of_fst ((hmem r').mp hr')
  rw [hall]
  refine ⟨honce, hmem, hperm, fun hagain => ?_⟩
  rwa [hfollows'.filter_pending hagain] at hperm

/-- Two channels, of which the first one is removed and leaves its place to the second. -/
theorem pollers_agree_moved : ∃ (ops : List PollOp) (p : PollPoller) (q : EPollPoller),
    run (PollPoller.step (· + 10)) .create ops = some p ∧ p.pollfds = [⟨11, 4⟩] ∧
    run (EPollPoller.step (· + 10)) .create ops = some q ∧
    ((p.poll fun _ => 5).map Prod.fst).Nodup ∧ (p.poll fun _ => 5).Perm (q.poll fun _ => 5).1 := by
  have ht : run (Interest.step (· + 10)) .create
      [.updateChannel 0 1, .updateChannel 1 1, .updateChannel 0 0, .removeChannel 0,
        .updateChannel 1 4] = some _ := rfl
  obtain ⟨p, q, hp, hq, -, -, hagree⟩ := pollers_agree ht
  have hpollfds : (some p).map PollPoller.pollfds = some [⟨11, 4⟩] := by
    rw [← hp]
    decide
  have hsize : (some q).map (fun q => decide ((q.pending fun _ => 5).length ≤ q.size)) =
      some true := by
    rw [← hq]
    decide
  have hperm := hagree (fun _ => 5) (fun _ => by decide) (fun k ch ev hk => ?_)
    (of_decide_eq_true (Option.some.inj hsize))
  · exact ⟨_, p, q, hp, Option.some.inj hpollfds, hq, hperm.1, hperm.2.2.2 rfl⟩
  · simp only [Interest.create, Function.update_apply] at hk
    split_ifs at hk
    cases hk
    decide

/-- `PollPoller` does not reset the index of a channel that it removes, and takes it for a place of
the array when the channel comes again. -/
theorem poll_stale_index : ∃ ops : List PollOp,
    (run (EPollPoller.step (· + 10)) .create ops).map EPollPoller.kernel =
      some [⟨11, 1, 1⟩, ⟨10, 1, 0⟩] ∧
    (run (PollPoller.step (· + 10)) .create ops).map PollPoller.pollfds = none :=
  ⟨[.updateChannel 0 1, .updateChannel 1 1, .updateChannel 0 0, .removeChannel 0,
    .updateChannel 0 1], by decide, by decide⟩

/-- A channel that comes without events, as the one of an `Acceptor` that is destroyed before it
listens, gets an entry that `removeChannel` of `PollPoller` does not expect. -/
theorem poll_none_first : ∃ ops : List PollOp,
    (run (EPollPoller.step (· + 10)) .create ops).map EPollPoller.kernel = some [] ∧
    (run (PollPoller.step (· + 10)) .create ops).map PollPoller.pollfds = none :=
  ⟨[.updateChannel 0 0, .removeChannel 0], by decide, by decide⟩

/-- `EPollPoller` hands a channel without events to the kernel again if it is told twice that there
are none: hang-ups are reported from then on. -/
theorem epoll_none_twice : ∃ ops : List PollOp,
    (run (EPollPoller.step (· + 10)) .create ops).map (fun q => (q.poll fun _ => 16).1) =
      some [(some 0, 16)] ∧
    (run (PollPoller.step (· + 10)) .create ops).map (fun p => p.poll fun _ => 16) = some [] :=
  ⟨[.updateChannel 0 1, .updateChannel 0 0, .updateChannel 0 0], by decide, by decide⟩

end LibWebsocket.Net
