import LibWebsocket.Loop.Timers

/-! Runs of a timer queue: nothing that is deleted is used, a cancelled timer does not fire again,
and the timerfd is armed whenever a timer waits. -/
namespace LibWebsocket.Timers

open LibWebsocket.Lib

namespace TimerQueue

variable {q q' : TimerQueue} {held : List Addr} {a : Addr} {t : Timer} {id : ActiveTimer}

/-- Nothing else of the queue matters to the sets. -/
theorem Good.congr (h : Good q held) (hheap : q'.heap = q.heap)
    (hcreated : q'.numCreated = q.numCreated) (htimers : q'.timers = q.timers)
    (hactive : q'.activeTimers = q.activeTimers) : Good q' held where
  timers := by simpa only [hheap, htimers] using h.timers
  active := by simpa only [hheap, hactive] using h.active
  exists_held := by simpa only [hheap] using h.exists_held
  nodup := h.nodup
  bound := by simpa only [hheap, hcreated] using h.bound
  distinct := by simpa only [hheap] using h.distinct

/-- The ways in which `cancelInLoop` can go. -/
inductive Cancels (q : TimerQueue) (id : ActiveTimer) : TimerQueue → Prop
  | delete {a : Addr} {t : Timer} (ht : q.heap a = some t) (hid : id = t.active a)
    (hactive : id ∈ q.activeTimers) :
    Cancels q id { q.takeOut a t with heap := Function.update q.heap a none }
  | note (hid : id ∉ q.activeTimers) (hbatch : q.batch.isSome) :
    Cancels q id { q with cancelingTimers := q.cancelingTimers.insert id }
  | ignore (hid : id ∉ q.activeTimers) (hbatch : q.batch = none) : Cancels q id q

theorem cancelInLoop_cases (h : Good q held) (id : ActiveTimer) :
    ∃ q', q.cancelInLoop id = some q' ∧ Cancels q id q' ∧ Good q' held := by
  by_cases hid : id ∈ q.activeTimers
  · obtain ⟨a, t, ht, ha, rfl⟩ := (h.active id).mp hid
    exact ⟨_, cancelInLoop_of_active h ht ha, .delete ht rfl hid, (h.takeOut ht ha).delete⟩
  · rw [cancelInLoop_of_not_active h hid]
    refine ⟨_, rfl, ?_⟩
    by_cases hbatch : q.batch.isSome
    · rw [if_pos hbatch]
      exact ⟨.note hid hbatch, h.congr rfl rfl rfl rfl⟩
    · rw [if_neg hbatch]
      exact ⟨.ignore hid (by simpa using hbatch), h⟩

theorem Good.added (h : Good q (a :: held)) (ht : q.heap a = some t) :
    Good (q.added a t) held := by
  have hgood := h.activate ht
  rw [TimerQueue.added]
  split_ifs
  · exact hgood.congr rfl rfl rfl rfl
  · exact hgood

theorem added_frame : q.added a t =
    { q.activate a t with alarm := (q.added a t).alarm, armedAt := (q.added a t).armedAt } := by
  unfold added
  split_ifs <;> rfl

theorem rearmed_frame :
    q.rearmed = { q with alarm := q.rearmed.alarm, armedAt := q.rearmed.armedAt } := by
  unfold rearmed
  split <;> [rfl; split_ifs <;> rfl]

end TimerQueue

/-- The timer that a request is about to put into the sets. -/
def Request.adds : Request → Option Addr
  | .add a => some a
  | .cancel _ => none

namespace TimerQueue

variable {q q' : TimerQueue} {held : List Addr} {a : Addr} {t : Timer} {id : ActiveTimer}

/-- The timers of the batch. -/
def batched (q : TimerQueue) : List Addr :=
  match q.batch with
  | none => []
  | some b => b.expired.map Entry.timer

/-- The timers that are in neither set: those of the batch and those that are still to be added. -/
def outside (q : TimerQueue) : List Addr := q.batched ++ q.requests.filterMap Request.adds

structure Sound (q : TimerQueue) : Prop where
  good : Good q q.outside
  rest : ∀ b, q.batch = some b → b.rest.Sublist b.expired

theorem sound_create {clock : ℤ} : Sound (create clock) := ⟨good_create, nofun⟩

/-- The ways in which a step can go. -/
inductive Steps (q : TimerQueue) : Action → TimerQueue → Prop
  | tick {micros : ℕ} : Steps q (.tick micros) { q with clock := q.clock + micros }
  | add {a : Addr} {when : ℤ} {interval : ℕ} {repeats : Bool} (hfree : q.Free a) :
    Steps q (.addTimer a when interval repeats)
      ((q.newTimer a when interval repeats).added a ⟨when, interval, repeats, q.numCreated + 1⟩)
  | cancel {id : ActiveTimer} {q' : TimerQueue} (h : Cancels q id q') : Steps q (.cancel id) q'
  | postAdd {a : Addr} {when : ℤ} {interval : ℕ} {repeats : Bool} (hfree : q.Free a) :
    Steps q (.postAdd a when interval repeats) (q.postAdd a when interval repeats)
  | postCancel {id : ActiveTimer} :
    Steps q (.postCancel id) { q with requests := q.requests ++ [.cancel id] }
  | sequence {i : ℕ} {id : ActiveTimer} (hid : q.reading[i]? = some id) (hexists : q.Exists id) :
    Steps q (.sequence i) { q with reading := q.reading.eraseIdx i }
  | serveAdd {a : Addr} {rs : List Request} {t : Timer} (hbatch : q.batch = none)
    (hrequest : q.requests = .add a :: rs) (ht : q.heap a = some t) :
    Steps q .serve (added { q with requests := rs } a t)
  | serveCancel {id : ActiveTimer} {rs : List Request} {q' : TimerQueue} (hbatch : q.batch = none)
    (hrequest : q.requests = .cancel id :: rs) (h : Cancels { q with requests := rs } id q') :
    Steps q .serve q'
  | handleRead {due : ℤ} {xs : List Entry} {q₁ : TimerQueue} (hbatch : q.batch = none)
    (halarm : q.alarm = some due) (hdue : due ≤ q.clock)
    (hq₁ : q₁ = { q with alarm := none, timers := q₁.timers, activeTimers := q₁.activeTimers })
    (hsorted : xs.Pairwise (· < ·))
    (hxs : ∀ x, x ∈ xs ↔ x ∈ q.timers ∧ Entry.when x ≤ q.clock)
    (htimers : ∀ x, x ∈ q₁.timers ↔ x ∈ q.timers ∧ q.clock < Entry.when x) :
    Steps q .handleRead
      { q₁ with batch := some ⟨q.clock, xs, xs⟩, cancelingTimers := .empty }
  | callback {now : ℤ} {expired rest : List Entry} {x : Entry} {t : Timer}
    (hbatch : q.batch = some ⟨now, expired, x :: rest⟩) (ht : q.heap (Entry.timer x) = some t) :
    Steps q .callback
      { q with batch := some ⟨now, expired, rest⟩, ran := q.ran ++ [t.sequence] }
  | reset {now : ℤ} {expired : List Entry} {q₁ : TimerQueue}
    (hbatch : q.batch = some ⟨now, expired, []⟩) (hframe : Frame { q with batch := none } q₁)
    (hother : ∀ a ∉ expired.map Entry.timer, q₁.heap a = q.heap a)
    (hreset : ∀ a ∈ expired.map Entry.timer, ∃ t, q.heap a = some t ∧
      q₁.heap a = afterReset q.cancelingTimers now a t)
    (htimers : ∀ x ∈ q₁.timers, x ∈ q.timers ∨ now ≤ Entry.when x) :
    Steps q .reset q₁.rearmed

theorem Cancels.batch_eq (h : Cancels q id q') : q'.batch = q.batch := by
  cases h <;> rfl

theorem Cancels.requests_eq (h : Cancels q id q') : q'.requests = q.requests := by
  cases h <;> rfl

theorem sequence_of_afterReset {c : OrderedSet ActiveTimer} {now : ℤ} {u : Timer}
    (h : afterReset c now a t = some u) : u.sequence = t.sequence := by
  unfold afterReset at h
  split_ifs at h
  cases h
  rfl

theorem le_expiration_of_afterReset {c : OrderedSet ActiveTimer} {now : ℤ} {u : Timer}
    (h : afterReset c now a t = some u) : now ≤ u.expiration := by
  unfold afterReset at h
  split_ifs at h with hagain
  cases h
  rw [Timer.restart, if_pos hagain.1]
  exact Int.le_add_of_nonneg_right (Int.natCast_nonneg _)

theorem newTimer_heap_self {when : ℤ} {interval : ℕ} {repeats : Bool} :
    (q.newTimer a when interval repeats).heap a =
      some ⟨when, interval, repeats, q.numCreated + 1⟩ := Function.update_self ..

theorem Sound.of_good (h : Sound q) (hbatch : q'.batch = q.batch)
    (hrequests : q'.requests = q.requests) (hgood : Good q' q.outside) : Sound q' where
  good := by
    rw [outside, batched, hbatch, hrequests]
    exact hgood
  rest := by
    rw [hbatch]
    exact h.rest

theorem Sound.without_batch (hbatch : q.batch = none)
    (hgood : Good q (q.requests.filterMap Request.adds)) : Sound q where
  good := by
    rw [outside, batched, hbatch]
    exact hgood
  rest := by
    rw [hbatch]
    exact nofun

theorem outside_without_batch (hbatch : q.batch = none) :
    q.outside = q.requests.filterMap Request.adds := by
  rw [outside, batched, hbatch, List.nil_append]

theorem addTimer_cases {when : ℤ} {interval : ℕ} {repeats : Bool} (h : Sound q)
    (hfree : q.Free a) : ∃ q', (q.addTimer a when interval repeats).map Prod.snd = some q' ∧
      Steps q (.addTimer a when interval repeats) q' ∧ Sound q' := by
  have hnew := h.good.newTimer hfree when interval repeats
  refine ⟨_, ?_, .add hfree, h.of_good (by rw [added_frame]; rfl) (by rw [added_frame]; rfl)
    (hnew.added newTimer_heap_self)⟩
  have hheap : ((q.newTimer a when interval repeats).added a
      ⟨when, interval, repeats, q.numCreated + 1⟩).heap a =
        some ⟨when, interval, repeats, q.numCreated + 1⟩ := by
    rw [added_frame]
    exact newTimer_heap_self
  rw [addTimer, addTimerInLoop_eq hnew newTimer_heap_self, Option.bind_some, hheap]
  rfl

theorem cancel_cases (h : Sound q) (id : ActiveTimer) :
    ∃ q', q.cancelInLoop id = some q' ∧ Steps q (.cancel id) q' ∧ Sound q' := by
  obtain ⟨q', hq', hcancels, hgood⟩ := cancelInLoop_cases h.good id
  exact ⟨q', hq', .cancel hcancels, h.of_good hcancels.batch_eq hcancels.requests_eq hgood⟩

theorem postAdd_sound {when : ℤ} {interval : ℕ} {repeats : Bool} (h : Sound q)
    (hfree : q.Free a) :
    Sound (q.postAdd a when interval repeats) where
  good := by
    have hnew := h.good.newTimer hfree when interval repeats
    have houtside : (q.postAdd a when interval repeats).outside = q.outside ++ [a] := by
      rw [outside, outside, List.append_assoc]
      exact congrArg _ List.filterMap_append
    rw [houtside]
    exact (hnew.perm (List.perm_append_singleton a _).symm).congr rfl rfl rfl rfl
  rest := h.rest

theorem postCancel_sound (h : Sound q) :
    Sound { q with requests := q.requests ++ [.cancel id] } where
  good := by
    have hadds : (q.requests ++ [Request.cancel id]).filterMap Request.adds =
        q.requests.filterMap Request.adds := by
      simp [Request.adds]
    have hgood := h.good
    rw [outside, ← hadds] at hgood
    exact hgood.congr rfl rfl rfl rfl
  rest := h.rest

theorem serve_cases {r : Request} {rs : List Request} (h : Sound q) (hbatch : q.batch = none)
    (hrequest : q.requests = r :: rs) :
    ∃ q', serve { q with requests := rs } r = some q' ∧ Steps q .serve q' ∧ Sound q' := by
  have hgood : Good { q with requests := rs } ((r :: rs).filterMap Request.adds) := by
    have := h.good
    rw [outside_without_batch hbatch, hrequest] at this
    exact this.congr rfl rfl rfl rfl
  cases r with
  | add a =>
    have hheld : Good { q with requests := rs } (a :: rs.filterMap Request.adds) := hgood
    obtain ⟨t, ht⟩ := hheld.exists_held a List.mem_cons_self
    refine ⟨_, addTimerInLoop_eq hheld ht, .serveAdd hbatch hrequest ht, ?_⟩
    refine .without_batch (by rw [added_frame]; exact hbatch) ?_
    rw [show TimerQueue.requests _ = rs by rw [added_frame]; rfl]
    exact hheld.added ht
  | cancel id =>
    obtain ⟨q', hq', hcancels, hgood'⟩ := cancelInLoop_cases hgood id
    refine ⟨q', hq', .serveCancel hbatch hrequest hcancels, ?_⟩
    refine .without_batch (hcancels.batch_eq.trans hbatch) ?_
    rw [hcancels.requests_eq]
    exact hgood'

theorem handleRead_cases {due : ℤ} (h : Sound q) (hbatch : q.batch = none)
    (halarm : q.alarm = some due) (hdue : due ≤ q.clock) :
    ∃ q', q.handleRead = some q' ∧ Steps q .handleRead q' ∧ Sound q' := by
  have hgood : Good { q with alarm := none } (q.requests.filterMap Request.adds) := by
    have := h.good
    rw [outside_without_batch hbatch] at this
    exact this.congr rfl rfl rfl rfl
  obtain ⟨xs, q₁, hq₁, hgood₁, hframe, hsorted, hxs, htimers⟩ := getExpired_eq hgood q.clock
  have hrequests : q₁.requests = q.requests := by rw [hframe]
  refine ⟨_, by rw [handleRead, hq₁]; rfl,
    .handleRead hbatch halarm hdue hframe hsorted hxs htimers, ?_, ?_⟩
  · rw [← hrequests] at hgood₁
    exact hgood₁.congr rfl rfl rfl rfl
  · rintro b ⟨⟩
    exact List.Sublist.refl _

theorem callback_cases {now : ℤ} {expired rest : List Entry} {x : Entry} (h : Sound q)
    (hbatch : q.batch = some ⟨now, expired, x :: rest⟩) :
    ∃ q', ((q.heap (Entry.timer x)).map fun t =>
        { q with batch := some ⟨now, expired, rest⟩, ran := q.ran ++ [t.sequence] }) = some q' ∧
      Steps q .callback q' ∧ Sound q' := by
  have hsub := h.rest _ hbatch
  have hbatched : q.batched = expired.map Entry.timer := by rw [batched, hbatch]
  obtain ⟨t, ht⟩ := h.good.exists_held (Entry.timer x) <| by
    rw [outside, hbatched]
    exact List.mem_append_left _ (List.mem_map.mpr ⟨x, hsub.mem List.mem_cons_self, rfl⟩)
  rw [ht]
  refine ⟨_, rfl, .callback hbatch ht, ?_, ?_⟩
  · have hgood := h.good
    rw [outside, hbatched] at hgood
    exact hgood.congr rfl rfl rfl rfl
  · rintro b ⟨⟩
    exact (List.sublist_cons_self x rest).trans hsub

theorem reset_cases {now : ℤ} {expired : List Entry} (h : Sound q)
    (hbatch : q.batch = some ⟨now, expired, []⟩) :
    ∃ q', reset { q with batch := none } expired now = some q' ∧
      Steps q .reset q' ∧ Sound q' := by
  have hgood : Good { q with batch := none }
      (expired.map Entry.timer ++ q.requests.filterMap Request.adds) := by
    have hgood := h.good
    rw [outside, batched, hbatch] at hgood
    exact hgood.congr rfl rfl rfl rfl
  obtain ⟨q₁, -, hgood₁, hframe, hother, hreset, hq'⟩ := reset_eq hgood now
  have hexpired : ∀ a ∈ expired.map Entry.timer, ∃ t, q.heap a = some t ∧
      q₁.heap a = afterReset q.cancelingTimers now a t := by
    intro a ha
    obtain ⟨t, ht⟩ := hgood.exists_held a (List.mem_append_left _ ha)
    exact ⟨t, ht, hreset a ha t ht⟩
  have htimers : ∀ x ∈ q₁.timers, x ∈ q.timers ∨ now ≤ Entry.when x := by
    intro x hx
    obtain ⟨a, t, ht, ha, rfl⟩ := (hgood₁.timers x).mp hx
    by_cases hmem : a ∈ expired.map Entry.timer
    · obtain ⟨u, -, heq⟩ := hexpired a hmem
      exact .inr (le_expiration_of_afterReset (heq.symm.trans ht))
    · rw [hother a hmem] at ht
      exact .inl ((hgood.timers _).mpr ⟨a, t, ht, by simp [hmem, ha], rfl⟩)
  refine ⟨_, hq', .reset hbatch hframe hother hexpired htimers, ?_⟩
  have hsound : Sound q₁ := by
    refine .without_batch (by rw [hframe]) ?_
    rwa [show q₁.requests = q.requests by rw [hframe]]
  rw [rearmed_frame]
  exact hsound.of_good rfl rfl (hsound.good.congr rfl rfl rfl rfl)

/-- A thread reads the sequence number of a timer that it has posted, and that has been deleted
since. -/
def LateRead (q : TimerQueue) (act : Action) : Prop :=
  ∃ i id, act = .sequence i ∧ q.reading[i]? = some id ∧ ¬ q.Exists id

/-- A step of a sound queue has a result, which is sound again, unless it is a late read. -/
theorem step_cases {act : Action} {o : Option TimerQueue} (h : Sound q)
    (hstep : q.step act = some o) :
    (∃ q', o = some q' ∧ Steps q act q' ∧ Sound q') ∨ o = none ∧ q.LateRead act := by
  cases act with
  | sequence i =>
    obtain ⟨id, hid, rfl⟩ := Option.map_eq_some_iff.mp hstep
    by_cases hexists : q.Exists id
    · rw [if_pos hexists]
      exact .inl ⟨_, rfl, .sequence hid hexists, h.of_good rfl rfl (h.good.congr rfl rfl rfl rfl)⟩
    · rw [if_neg hexists]
      exact .inr ⟨rfl, i, id, rfl, hid, hexists⟩
  | tick micros =>
    cases hstep
    exact .inl ⟨_, rfl, .tick, h.of_good rfl rfl (h.good.congr rfl rfl rfl rfl)⟩
  | addTimer a when interval repeats =>
    simp only [step] at hstep
    split_ifs at hstep with hfree
    cases hstep
    exact .inl (addTimer_cases h hfree)
  | cancel id =>
    cases hstep
    exact .inl (cancel_cases h _)
  | postAdd a when interval repeats =>
    simp only [step] at hstep
    split_ifs at hstep with hfree
    cases hstep
    exact .inl ⟨_, rfl, .postAdd hfree, postAdd_sound h hfree⟩
  | postCancel id =>
    cases hstep
    exact .inl ⟨_, rfl, .postCancel, postCancel_sound h⟩
  | serve =>
    simp only [step] at hstep
    split at hstep
    case h_1 hbatch hrequest =>
      cases hstep
      exact .inl (serve_cases h hbatch hrequest)
    case h_2 => cases hstep
  | handleRead =>
    simp only [step] at hstep
    split at hstep
    case h_1 hbatch halarm =>
      split_ifs at hstep with hdue
      cases hstep
      exact .inl (handleRead_cases h hbatch halarm hdue)
    case h_2 => cases hstep
  | callback =>
    simp only [step] at hstep
    split at hstep
    case h_1 hbatch =>
      cases hstep
      exact .inl (callback_cases h hbatch)
    case h_2 => cases hstep
  | reset =>
    simp only [step] at hstep
    split at hstep
    case h_1 hbatch =>
      cases hstep
      exact .inl (reset_cases h hbatch)
    case h_2 => cases hstep

end TimerQueue

section Runs
variable {clock : ℤ} {as : List Action} {o : Option TimerQueue} {q : TimerQueue}

/-- What the steps of a sound queue keep holds of every result of a run. -/
theorem run_keeps {P : TimerQueue → Prop} {A : Action → Prop} {q' : TimerQueue}
    (hstep : ∀ {q act q'}, q.Sound → P q → A act → q.Steps act q' → P q') (hsound : q.Sound)
    (hq : P q) (hA : ∀ act ∈ as, A act) (h : run step (some q) as = some (some q')) :
    q'.Sound ∧ P q' := by
  refine run_invariant (P := fun o => ∀ q, o = some q → q.Sound ∧ P q) (Q := fun _ act => A act)
    ?_ ?_ (meets_of_forall hA) h q' rfl
  · rintro (_ | q) act o hq hact hstep' q' rfl
    · cases hstep'
    · obtain ⟨hsound, hP⟩ := hq q rfl
      rcases TimerQueue.step_cases hsound hstep' with ⟨_, ⟨⟩, hsteps, hsound'⟩ | ⟨⟨⟩, -⟩
      exact ⟨hsound', hstep hsound hP hact hsteps⟩
  · rintro _ ⟨⟩
    exact ⟨hsound, hq⟩

theorem run_sound {q' : TimerQueue} (hsound : q.Sound)
    (h : run step (some q) as = some (some q')) : q'.Sound :=
  (run_keeps (P := fun _ => True) (A := fun _ => True) (fun _ _ _ _ => trivial) hsound trivial
    (fun _ _ => trivial) h).1

theorem exists_of_test {o : Option (Option TimerQueue)} {p : TimerQueue → Bool}
    (h : (o.bind id).any p = true) : ∃ q, o = some (some q) ∧ p q = true := by
  obtain ⟨q, hq, hp⟩ := (Option.any_eq_true _ _).mp h
  obtain ⟨_, rfl, rfl⟩ := Option.bind_eq_some_iff.mp hq
  exact ⟨q, rfl, hp⟩

/-- A timer that another thread posts fires and is deleted before that thread goes on. -/
example : (run step (some (.create 1000)) [.postAdd 8 1100 0 false, .serve, .tick 200, .handleRead,
    .callback, .reset, .sequence 0]).any Option.isNone = true := by
  decide +kernel

end Runs

namespace TimerQueue

variable {q q' : TimerQueue} {a : Addr} {t : Timer} {id : ActiveTimer} {s : ℕ}

/-- The timer with this sequence number is deleted, or will be at the end of the batch. -/
structure Ended (q : TimerQueue) (s : ℕ) : Prop where
  created : s ≤ q.numCreated
  batched : ∀ a t, q.heap a = some t → t.sequence = s → ∃ b, q.batch = some b ∧
    a ∈ b.expired.map Entry.timer ∧ afterReset q.cancelingTimers b.now a t = none

/-- How often its callback is still to be called in the batch. -/
def turns (q : TimerQueue) (s : ℕ) : ℕ :=
  match q.batch with
  | none => 0
  | some b => b.rest.countP fun x => (q.heap (Entry.timer x)).any (·.sequence = s)

/-- No timer has got this sequence number, and one that has it is the same. -/
def SameFor (s : ℕ) (q q' : TimerQueue) : Prop :=
  ∀ a t, q'.heap a = some t → t.sequence = s → q.heap a = some t

theorem afterReset_mono {c c' : OrderedSet ActiveTimer} {now : ℤ} (hc : ∀ x ∈ c, x ∈ c')
    (h : afterReset c now a t = none) : afterReset c' now a t = none := by
  unfold afterReset at *
  split_ifs at h with hagain
  exact if_neg fun h => hagain ⟨h.1, mt (hc _) h.2⟩

theorem SameFor.turns_le (h : SameFor s q q') (hbatch : q'.batch = q.batch) :
    q'.turns s ≤ q.turns s := by
  unfold turns
  rw [hbatch]
  cases q.batch with
  | none => exact le_rfl
  | some b =>
    refine List.countP_mono_left fun x _ hx => ?_
    obtain ⟨t, ht, hs⟩ := (Option.any_eq_true _ _).mp hx
    rw [h _ t ht (of_decide_eq_true hs)]
    exact hs

/-- A sequence number that no timer bears. -/
def Unused (q : TimerQueue) (s : ℕ) : Prop := ∀ a t, q.heap a = some t → t.sequence ≠ s

theorem Unused.turns_eq (h : Unused q s) : q.turns s = 0 := by
  unfold turns
  split
  · rfl
  · refine List.countP_eq_zero.mpr fun x _ hx => ?_
    obtain ⟨t, ht, hs⟩ := (Option.any_eq_true _ _).mp hx
    exact h _ t ht (of_decide_eq_true hs)

theorem Ended.of_unused (h : Unused q s) (hcreated : s ≤ q.numCreated) : Ended q s :=
  ⟨hcreated, fun a t ht hs => absurd hs (h a t ht)⟩

theorem Ended.unused_of_no_batch (h : Ended q s) (hbatch : q.batch = none) : Unused q s := by
  intro a t ht hs
  obtain ⟨b, hb, -⟩ := h.batched a t ht hs
  rw [hbatch] at hb
  cases hb

theorem Ended.of_sameFor (h : Ended q s) (hsame : SameFor s q q') (hbatch : q'.batch = q.batch)
    (hcreated : q.numCreated ≤ q'.numCreated)
    (hcanceling : ∀ x ∈ q.cancelingTimers, x ∈ q'.cancelingTimers) : Ended q' s where
  created := h.created.trans hcreated
  batched a t ht hs := by
    obtain ⟨b, hb, ha, hreset⟩ := h.batched a t (hsame a t ht hs) hs
    exact ⟨b, hbatch.trans hb, ha, afterReset_mono hcanceling hreset⟩

theorem sameFor_newTimer {when : ℤ} {interval : ℕ} {repeats : Bool}
    (hs : s ≤ q.numCreated) : SameFor s q (q.newTimer a when interval repeats) := by
  intro b t ht hseq
  rcases update_eq_some.mp ht with ⟨-, hnew⟩ | ⟨-, hold⟩
  · cases hnew
    simp only at hseq
    omega
  · exact hold

theorem Cancels.sameFor (h : Cancels q id q') : SameFor s q q' := by
  intro b t ht _
  cases h with
  | delete =>
    rcases update_eq_some.mp ht with ⟨-, hnone⟩ | ⟨-, hold⟩
    · cases hnone
    · exact hold
  | note | ignore => exact ht

theorem Cancels.cancelingTimers_subset (h : Cancels q id q') :
    ∀ x ∈ q.cancelingTimers, x ∈ q'.cancelingTimers := by
  intro x hx
  cases h with
  | delete | ignore => exact hx
  | note => exact OrderedSet.mem_insert.mpr (.inr hx)

theorem Cancels.numCreated_eq (h : Cancels q id q') : q'.numCreated = q.numCreated := by
  cases h <;> rfl

theorem Cancels.ran_eq (h : Cancels q id q') : q'.ran = q.ran := by
  cases h <;> rfl

/-- No step gives an ended timer a further turn. -/
theorem Ended.step {act : Action} (h : Ended q s) (hstep : Steps q act q') :
    Ended q' s ∧ q'.ran.count s + q'.turns s ≤ q.ran.count s + q.turns s := by
  -- Most steps leave the batch alone and call nothing.
  have keep {q' : TimerQueue} (hsame : SameFor s q q') (hbatch : q'.batch = q.batch)
      (hcreated : q.numCreated ≤ q'.numCreated)
      (hcanceling : ∀ x ∈ q.cancelingTimers, x ∈ q'.cancelingTimers) (hran : q'.ran = q.ran) :
      Ended q' s ∧ q'.ran.count s + q'.turns s ≤ q.ran.count s + q.turns s :=
    ⟨h.of_sameFor hsame hbatch hcreated hcanceling,
      by rw [hran]; exact Nat.add_le_add_left (hsame.turns_le hbatch) _⟩
  have gone {q' : TimerQueue} (hunused : Unused q' s) (hcreated : q'.numCreated = q.numCreated)
      (hran : q'.ran = q.ran) :
      Ended q' s ∧ q'.ran.count s + q'.turns s ≤ q.ran.count s + q.turns s :=
    ⟨.of_unused hunused (hcreated ▸ h.created),
      by rw [hran, hunused.turns_eq]; exact Nat.le_add_right _ _⟩
  cases hstep with
  | tick | postCancel | sequence =>
    exact keep (fun _ _ ht _ => ht) rfl le_rfl (fun _ hx => hx) rfl
  | add =>
    rw [added_frame]
    exact keep (sameFor_newTimer h.created) rfl (Nat.le_succ _) (fun _ hx => hx) rfl
  | postAdd => exact keep (sameFor_newTimer h.created) rfl (Nat.le_succ _) (fun _ hx => hx) rfl
  | cancel hc =>
    exact keep hc.sameFor hc.batch_eq hc.numCreated_eq.ge hc.cancelingTimers_subset hc.ran_eq
  | serveAdd =>
    rw [added_frame]
    exact keep (fun _ _ ht _ => ht) rfl le_rfl (fun _ hx => hx) rfl
  | serveCancel _ _ hc =>
    exact keep hc.sameFor hc.batch_eq hc.numCreated_eq.ge hc.cancelingTimers_subset hc.ran_eq
  | @handleRead due xs q₁ hbatch _ _ hq₁ =>
    refine gone (fun a t ht => ?_) ?_ ?_
    · rw [show TimerQueue.heap _ = q.heap by rw [hq₁]] at ht
      exact h.unused_of_no_batch hbatch a t ht
    · rw [hq₁]
    · rw [hq₁]
  | @callback now expired rest x t hbatch ht =>
    refine ⟨⟨h.created, fun a u hu hs => ?_⟩, ?_⟩
    · obtain ⟨b, hb, ha, hreset⟩ := h.batched a u hu hs
      cases hbatch.symm.trans hb
      exact ⟨_, rfl, ha, hreset⟩
    · simp only [turns, hbatch, List.countP_cons, List.count_append, ht, Option.any_some,
        List.count_singleton, beq_iff_eq, decide_eq_true_eq]
      split_ifs <;> omega
  | @reset now expired q₁ hbatch hframe hother hreset _ =>
    have hunused : Unused q₁ s := by
      intro a t ht hs
      by_cases ha : a ∈ expired.map Entry.timer
      · obtain ⟨u, hu, heq⟩ := hreset a ha
        rw [heq] at ht
        have hseq := sequence_of_afterReset ht
        obtain ⟨b, hb, -, hnone⟩ := h.batched a u hu (hseq.symm.trans hs)
        cases hbatch.symm.trans hb
        rw [hnone] at ht
        cases ht
      · rw [hother a ha] at ht
        obtain ⟨b, hb, hmem, -⟩ := h.batched a t ht hs
        cases hbatch.symm.trans hb
        exact ha hmem
    rw [rearmed_frame]
    refine gone hunused ?_ ?_
    · rw [hframe]
    · rw [hframe]

end TimerQueue

section Cancel
variable {clock : ℤ} {as bs : List Action} {q q' q'' : TimerQueue} {a : Addr} {t : Timer}
  {s : ℕ}

end Cancel

namespace TimerQueue

variable {q q' : TimerQueue} {a : Addr} {t : Timer} {id : ActiveTimer}

theorem resetTimerfd_alarm {expiration : ℤ} :
    (q.resetTimerfd expiration).alarm = some (max expiration (q.clock + 100)) := by
  simp only [resetTimerfd, howMuchTimeFromNow, Option.some.injEq]
  split_ifs <;> omega

theorem when_le_of_le {x y : Entry} (h : x ≤ y) : Entry.when x ≤ Entry.when y :=
  Prod.Lex.monotone_fst x y h

theorem earliestChanged_iff {when : ℤ} :
    q.earliestChanged when = true ↔ ∀ x ∈ q.timers, when < Entry.when x := by
  unfold earliestChanged
  split
  · rename_i hfirst
    exact iff_of_true rfl fun x hx => absurd hx (OrderedSet.first?_eq_none.mp hfirst x)
  · rename_i x hfirst
    obtain ⟨hx, hle⟩ := OrderedSet.first?_eq_some hfirst
    rw [decide_eq_true_eq]
    exact ⟨fun h y hy => h.trans_le (when_le_of_le (hle y hy)), fun h => h x hx⟩

/-- The timerfd goes off no later than a timer expires, or 100 microseconds after it was set. -/
def CoveredBy (q : TimerQueue) (x : Entry) : Prop :=
  ∃ due, q.alarm = some due ∧ due ≤ max (Entry.when x) (q.armedAt + 100)

theorem CoveredBy.of_le {x y : Entry} (h : q.CoveredBy x) (hxy : Entry.when x ≤ Entry.when y) :
    q.CoveredBy y := by
  obtain ⟨due, halarm, hdue⟩ := h
  exact ⟨due, halarm, hdue.trans (max_le_max_right _ hxy)⟩

theorem coveredBy_resetTimerfd {when : ℤ} {x : Entry} (h : when ≤ Entry.when x) :
    (q.resetTimerfd when).CoveredBy x :=
  ⟨_, resetTimerfd_alarm, max_le_max_right _ h⟩

/-- Within a batch the timerfd need not be set, as `reset` will do that, except for times that
`reset` takes for invalid. -/
structure Armed (q : TimerQueue) : Prop where
  clock : 0 < q.clock
  now : ∀ b, q.batch = some b → 0 < b.now
  armedAt : q.armedAt ≤ q.clock
  alarm : ∀ x ∈ q.timers, q.batch = none ∨ Entry.when x ≤ 0 → q.CoveredBy x

theorem Armed.added (h : Armed q) : Armed (q.added a t) := by
  have hmem {x : Entry} (hx : x ∈ (q.added a t).timers) : x = t.entry a ∨ x ∈ q.timers := by
    rw [added_frame] at hx
    exact OrderedSet.mem_insert.mp hx
  by_cases hearliest : q.earliestChanged t.expiration
  · have heq : q.added a t = (q.activate a t).resetTimerfd t.expiration := if_pos hearliest
    have hbefore := earliestChanged_iff.mp hearliest
    rw [heq] at hmem ⊢
    refine ⟨h.clock, h.now, le_rfl, fun x hx _ => coveredBy_resetTimerfd ?_⟩
    rcases hmem hx with rfl | hx
    · exact le_rfl
    · exact (hbefore x hx).le
  · have heq : q.added a t = q.activate a t := if_neg hearliest
    rw [earliestChanged_iff] at hearliest
    push Not at hearliest
    obtain ⟨y, hy, hle⟩ := hearliest
    rw [heq] at hmem ⊢
    refine ⟨h.clock, h.now, h.armedAt, fun x hx hwhen => ?_⟩
    rcases hmem hx with rfl | hx
    · -- An earlier timer is in the set already, and the timerfd set for that one.
      exact (h.alarm y hy (hwhen.imp_right hle.trans)).of_le hle
    · exact h.alarm x hx hwhen

theorem Armed.cancel (h : Armed q) (hcancels : Cancels q id q') : Armed q' := by
  cases hcancels with
  | delete => exact ⟨h.clock, h.now, h.armedAt, fun x hx => h.alarm x (OrderedSet.mem_erase.mp hx).2⟩
  | note | ignore => exact ⟨h.clock, h.now, h.armedAt, h.alarm⟩

theorem Armed.congr (h : Armed q) (hclock : q'.clock = q.clock) (hbatch : q'.batch = q.batch)
    (harmedAt : q'.armedAt = q.armedAt) (halarm : q'.alarm = q.alarm)
    (htimers : q'.timers = q.timers) : Armed q' where
  clock := by simpa only [hclock] using h.clock
  now := by simpa only [hbatch] using h.now
  armedAt := by simpa only [hclock, harmedAt] using h.armedAt
  alarm := by simpa only [htimers, hbatch, CoveredBy, halarm, harmedAt] using h.alarm

/-- The earliest timer behind a batch was set when it was added, if its time is invalid. -/
theorem Armed.rearmed (hclock : 0 < q.clock) (hbatch : q.batch = none)
    (harmedAt : q.armedAt ≤ q.clock) (h : ∀ x ∈ q.timers, Entry.when x ≤ 0 → q.CoveredBy x) :
    Armed q.rearmed := by
  unfold TimerQueue.rearmed
  split
  · rename_i hfirst
    exact ⟨hclock, by simp [hbatch], harmedAt,
      fun x hx => absurd hx (OrderedSet.first?_eq_none.mp hfirst x)⟩
  · rename_i x hfirst
    obtain ⟨hx, hle⟩ := OrderedSet.first?_eq_some hfirst
    split_ifs with hvalid
    · exact ⟨hclock, by simp [resetTimerfd, hbatch], le_rfl,
        fun y hy _ => coveredBy_resetTimerfd (when_le_of_le (hle y hy))⟩
    · exact ⟨hclock, by simp [hbatch], harmedAt,
        fun y hy _ => (h x hx (not_lt.mp hvalid)).of_le (when_le_of_le (hle y hy))⟩

theorem Armed.step {act : Action} (h : Armed q) (hstep : Steps q act q') : Armed q' := by
  have hclock := h.clock
  have harmedAt := h.armedAt
  cases hstep with
  | tick => exact ⟨by simp only; omega, h.now, by simp only; omega, h.alarm⟩
  | add | serveAdd => exact Armed.added (h.congr rfl rfl rfl rfl rfl)
  | cancel hc => exact h.cancel hc
  | postAdd | postCancel | sequence => exact h.congr rfl rfl rfl rfl rfl
  | @serveCancel _ rs _ _ _ hc =>
    have hrest : Armed { q with requests := rs } := h.congr rfl rfl rfl rfl rfl
    exact hrest.cancel hc
  | @handleRead due xs q₁ hbatch _ _ hq₁ _ _ htimers =>
    have hclock₁ : q₁.clock = q.clock := by rw [hq₁]
    have harmedAt₁ : q₁.armedAt = q.armedAt := by rw [hq₁]
    refine ⟨by rwa [← hclock₁] at hclock, ?_, by rwa [← hclock₁, ← harmedAt₁] at harmedAt, ?_⟩
    · rintro b ⟨⟩
      exact hclock
    · rintro x hx (hnone | hwhen)
      · cases hnone
      · have := ((htimers x).mp hx).2
        omega
  | callback hbatch =>
    have hnow := h.now _ hbatch
    refine ⟨hclock, ?_, harmedAt, fun x hx hwhen => h.alarm x hx (.inr ?_)⟩
    · rintro b ⟨⟩
      exact hnow
    · exact hwhen.resolve_left (by simp)
  | @reset now expired q₁ hbatch hframe _ _ htimers =>
    have hclock₁ : q₁.clock = q.clock := by rw [hframe]
    have harmedAt₁ : q₁.armedAt = q.armedAt := by rw [hframe]
    have halarm₁ : q₁.alarm = q.alarm := by rw [hframe]
    refine Armed.rearmed (by rwa [hclock₁]) (by rw [hframe]) (by rwa [hclock₁, harmedAt₁]) ?_
    intro x hx hwhen
    have hnow := h.now _ hbatch
    rcases htimers x hx with hold | hnew
    · rw [CoveredBy, halarm₁, harmedAt₁]
      exact h.alarm x hold (.inr hwhen)
    · simp only at hnow
      omega

end TimerQueue

namespace TimerQueue

variable {q q' : TimerQueue} {act : Action} {b : Batch} {a : Addr}

/-- Until `reset`, the timers of the batch stay as they are. -/
theorem Steps.heap_eq (h : Sound q) (hstep : Steps q act q') (hact : act ≠ .reset)
    (ha : a ∈ q.batched) : q'.heap a = q.heap a := by
  have hout : a ∈ q.outside := List.mem_append_left _ ha
  obtain ⟨t, ht⟩ := h.good.exists_held a hout
  have hfree {c : Addr} (hc : q.Free c) : a ≠ c := by
    rintro rfl
    rw [Free, ht] at hc
    cases hc.1
  have hcancel {q₁ : TimerQueue} {id : ActiveTimer} (hc : Cancels q id q₁) :
      q₁.heap a = q.heap a := by
    cases hc with
    | @delete c u hu hid hactive =>
      refine Function.update_of_ne ?_ _ _
      rintro rfl
      rw [hid, h.good.mem_active hu] at hactive
      exact hactive hout
    | note | ignore => rfl
  have hnone (hbatch : q.batch = none) : False := by
    rw [batched, hbatch] at ha
    cases ha
  cases hstep with
  | tick | postCancel | sequence | callback => rfl
  | add hc =>
    rw [added_frame]
    exact Function.update_of_ne (hfree hc) _ _
  | postAdd hc => exact Function.update_of_ne (hfree hc) _ _
  | cancel hc => exact hcancel hc
  | serveAdd hbatch | serveCancel hbatch | handleRead hbatch => exact (hnone hbatch).elim
  | reset => exact absurd rfl hact

/-- Until `reset`, a step leaves the batch alone or calls the next callback. -/
theorem Steps.batch_cases (hstep : Steps q act q') (hact : act ≠ .reset) (hb : q.batch = some b) :
    (q'.batch = some b ∧ q'.ran = q.ran) ∨ ∃ x rest t, b.rest = x :: rest ∧
      q.heap (Entry.timer x) = some t ∧ q'.batch = some { b with rest } ∧
      q'.ran = q.ran ++ [t.sequence] := by
  cases hstep with
  | tick | postAdd | postCancel | sequence => exact .inl ⟨hb, rfl⟩
  | add =>
    rw [added_frame]
    exact .inl ⟨hb, rfl⟩
  | cancel hc => exact .inl ⟨hc.batch_eq.trans hb, hc.ran_eq⟩
  | callback hbatch ht =>
    cases hbatch.symm.trans hb
    exact .inr ⟨_, _, _, rfl, ht, rfl, rfl⟩
  | serveAdd hbatch | serveCancel hbatch | handleRead hbatch =>
    rw [hbatch] at hb
    cases hb
  | reset => exact absurd rfl hact

/-- The sequence number of the timer at an entry. -/
def sequenceAt (q : TimerQueue) (x : Entry) : ℕ :=
  ((q.heap (Entry.timer x)).map Timer.sequence).getD 0

end TimerQueue

section Batch
variable {clock : ℤ} {as bs : List Action} {q q₁ q₂ : TimerQueue} {b : Batch}

/-- A batch under way: what has been called and what is still to be called make it up. -/
structure Underway (q : TimerQueue) (xs : List Entry) (q₁ : TimerQueue) : Prop where
  heap : ∀ x ∈ xs, q₁.heap (Entry.timer x) = q.heap (Entry.timer x)
  calls : ∃ called rest, xs = called ++ rest ∧ q₁.batch = some ⟨q.clock, xs, rest⟩ ∧
    q₁.ran = q.ran ++ called.map q.sequenceAt

theorem Underway.step {xs : List Entry} {act : Action} (hsound : q₁.Sound)
    (h : Underway q xs q₁) (hact : act ≠ .reset) (hsteps : q₁.Steps act q₂) :
    Underway q xs q₂ := by
  obtain ⟨called, rest, hxs, hbatch, hran⟩ := h.calls
  refine ⟨fun x hx => ?_, ?_⟩
  · have hmem : Entry.timer x ∈ q₁.batched := by
      rw [TimerQueue.batched, hbatch]
      exact List.mem_map.mpr ⟨x, hx, rfl⟩
    rw [hsteps.heap_eq hsound hact hmem, h.heap x hx]
  · rcases hsteps.batch_cases hact hbatch with ⟨hbatch', hran'⟩ | ⟨x, rest', t, hrest, ht, hbatch', hran'⟩
    · exact ⟨called, rest, hxs, hbatch', hran'.trans hran⟩
    · simp only at hrest
      subst hrest
      refine ⟨called ++ [x], rest', by simp [hxs], hbatch', ?_⟩
      rw [h.heap x (by simp [hxs])] at ht
      simp [hran', hran, TimerQueue.sequenceAt, ht]

/-- When the timerfd goes off, the callbacks of all timers that are due are called, each once and
in the order of their expirations, whatever these callbacks and the other threads do meanwhile. -/
theorem batch_calls_due (h : run step (some (.create clock)) as = some (some q))
    (hread : q.step .handleRead = some (some q₁)) (hrun : run step (some q₁) bs = some (some q₂))
    (hbs : .reset ∉ bs) (hb : q₂.batch = some b) (hend : b.rest = []) :
    ∃ xs : List Entry, xs.Pairwise (· < ·) ∧ (∀ x, x ∈ xs ↔ x ∈ q.timers ∧ Entry.when x ≤ q.clock) ∧
      q₂.ran = q.ran ++ xs.map q.sequenceAt := by
  have hsound := run_sound TimerQueue.sound_create h
  obtain ⟨_, ⟨⟩, hsteps, hsound₁⟩ := (TimerQueue.step_cases hsound hread).resolve_right nofun
  cases hsteps with
  | @handleRead due xs q' hbatch _ _ hq' hsorted hxs _ =>
    refine ⟨xs, hsorted, hxs, ?_⟩
    obtain ⟨-, hunderway⟩ : q₂.Sound ∧ Underway q xs q₂ := by
      refine run_keeps (A := fun act => act ≠ .reset) Underway.step hsound₁
        ⟨?_, [], xs, rfl, rfl, ?_⟩ (fun act hact => ne_of_mem_of_not_mem hact hbs) hrun
      · intro x _
        rw [hq']
      · rw [hq']
        simp
    obtain ⟨called, rest, hxs', hbatch', hran⟩ := hunderway.calls
    cases hbatch'.symm.trans hb
    simp only at hend
    subst hend
    rw [hran, hxs', List.append_nil]

/-- Two timers, the later one added first, and a third that a callback adds. -/
theorem batch_calls_due_two : ∃ q q₁ q₂ : TimerQueue, ∃ b : Batch, ∃ as bs : List Action,
    run step (some (.create 1000)) as = some (some q) ∧ q.step .handleRead = some (some q₁) ∧
    run step (some q₁) bs = some (some q₂) ∧ q₂.batch = some b ∧ b.rest = [] ∧
    ∃ xs : List Entry, xs.Pairwise (· < ·) ∧
      (∀ x, x ∈ xs ↔ x ∈ q.timers ∧ Entry.when x ≤ q.clock) ∧
      q₂.ran = q.ran ++ xs.map q.sequenceAt := by
  obtain ⟨q₂, hq₂, htest⟩ := exists_of_test
    (o := run step (some (.create 1000)) ([.addTimer 8 1100 0 false, .addTimer 16 1050 10 true,
      .tick 200] ++ .handleRead :: [.callback, .addTimer 24 5000 0 false, .callback]))
    (p := fun q => (q.batch.map Batch.rest) = some []) (by decide +kernel)
  obtain ⟨b, hb, hrest⟩ := Option.map_eq_some_iff.mp (of_decide_eq_true htest)
  obtain ⟨_ | q, hq, hrun⟩ := run_append_eq_some.mp hq₂
  · cases hrun
  obtain ⟨_ | q₁, hread, hrun⟩ := run_cons_eq_some.mp hrun
  · cases hrun
  exact ⟨q, q₁, q₂, b, _, _, hq, hread, hrun, hb, hrest,
    batch_calls_due hq hread hrun (by decide) hb hrest⟩

end Batch

section Alarm
variable {clock : ℤ} {as : List Action} {q : TimerQueue} {x : Entry}

/-- While a timer waits, the timerfd is set: to its expiration or an earlier time, or to the 100
microseconds that it is set to at least. -/
theorem armed_of_timer (hclock : 0 < clock)
    (h : run step (some (.create clock)) as = some (some q)) (hbatch : q.batch = none)
    (hx : x ∈ q.timers) :
    q.armedAt ≤ q.clock ∧ ∃ due, q.alarm = some due ∧
      due ≤ max (Entry.when x) (q.armedAt + 100) := by
  have hcreate : (TimerQueue.create clock).Armed :=
    ⟨hclock, nofun, le_rfl, fun x hx => absurd hx OrderedSet.notMem_empty⟩
  obtain ⟨-, harmed⟩ := run_keeps (A := fun _ => True) (fun _ h _ hsteps => h.step hsteps)
    TimerQueue.sound_create hcreate (fun _ _ => trivial) h
  exact ⟨harmed.armedAt, harmed.alarm x hx (.inl hbatch)⟩

/-- The timer that was waited for is cancelled, and a later one is left. -/
theorem armed_of_timer_later : ∃ (as : List Action) (q : TimerQueue),
    run step (some (.create 1000)) as = some (some q) ∧ toLex (2000, 16) ∈ q.timers ∧
    q.armedAt ≤ q.clock ∧ ∃ due, q.alarm = some due ∧ due ≤ max 2000 (q.armedAt + 100) := by
  obtain ⟨q, hq, htest⟩ := exists_of_test
    (o := run step (some (.create 1000)) [.addTimer 8 1100 0 false, .addTimer 16 2000 0 false,
      .tick 50, .cancel (toLex (8, 1))])
    (p := fun q => q.batch.isNone ∧ toLex (2000, 16) ∈ q.timers) (by decide +kernel)
  obtain ⟨hbatch, hx⟩ := of_decide_eq_true htest
  exact ⟨_, q, hq, hx, armed_of_timer (by decide) hq (Option.isNone_iff_eq_none.mp hbatch) hx⟩

end Alarm

end LibWebsocket.Timers
