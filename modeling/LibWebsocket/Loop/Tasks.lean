import LibWebsocket.Lib.Run

/-! The functors of an event loop (`EventLoop.cc`). Any thread may post one, and the loop's own
thread calls them between two waits for events. -/
namespace LibWebsocket.Loop

open LibWebsocket.Lib

/-- Where the loop's thread is in `EventLoop::loop`. -/
inductive Phase (F : Type*)
  /-- Outside `loop`. -/
  | idle
  /-- Before the test of `quit_`. -/
  | test
  /-- In `poller_->poll`. -/
  | poll
  /-- Calling the handlers of the active channels. `woken` says whether that of the eventfd is
  still to be called. -/
  | handle (woken : Bool)
  /-- In `doPendingFunctors`, before the swap. -/
  | swap
  /-- In `doPendingFunctors`, with the functors that are still to be called. -/
  | call (functors : List F)
deriving DecidableEq, Repr

/-- The functors the loop's thread has taken from the queue and not called yet. -/
def Phase.functors {F : Type*} : Phase F → List F
  | .call fs => fs
  | _ => []

structure EventLoop (F : Type*) where
  phase : Phase F
  quit : Bool
  callingPendingFunctors : Bool
  pendingFunctors : List F
  /-- The counter behind `wakeupFd_`. -/
  wakeups : ℕ
  /-- How many other threads have changed the queue or `quit_` and not called `wakeup` yet. -/
  waking : ℕ
  /-- What `doPendingFunctors` has called so far. -/
  called : List F
deriving DecidableEq, Repr

namespace EventLoop

variable {F : Type*}

def create : EventLoop F := ⟨.idle, false, false, [], 0, 0, []⟩

/-- A write to an eventfd that is full fails and leaves the counter as it is. -/
def wakeup (l : EventLoop F) : EventLoop F :=
  { l with wakeups := min (l.wakeups + 1) 0xFFFFFFFFFFFFFFFE }

def push (l : EventLoop F) (f : F) : EventLoop F :=
  { l with pendingFunctors := l.pendingFunctors ++ [f] }

/-- `queueInLoop` in the loop's own thread. Nothing reads the eventfd before this thread polls
again, so that the push and the wakeup are one step here. -/
def queueInLoop (l : EventLoop F) (f : F) : EventLoop F :=
  if l.callingPendingFunctors then (l.push f).wakeup else l.push f

end EventLoop

/-- What can happen next. `queueInLoop` and `quit` are calls in the loop's own thread; `post` and
`requestQuit` are the first halves of these functions in another thread, and `wakeup` is the
second half of both. `poll true` returns for an event of another channel or after the timeout. -/
inductive Action (F : Type*)
  | loop | test | poll (event : Bool) | handleRead | handled | swap | call | calledAll
  | queueInLoop (f : F) | quit
  | post (f : F) | requestQuit | wakeup
deriving DecidableEq, Repr

/-- The loop's own thread runs callbacks, or code outside `loop`. -/
def Phase.callsOut {F : Type*} : Phase F → Bool
  | .idle | .handle _ | .call _ => true
  | _ => false

section Step
variable {F : Type*}

def step (l : EventLoop F) (a : Action F) : Option (EventLoop F) :=
  match a, l.phase with
  | .loop, .idle => some { l with phase := .test, quit := false }
  | .test, .test => some { l with phase := if l.quit then .idle else .poll }
  | .poll event, .poll =>
    if event || 0 < l.wakeups then some { l with phase := .handle (0 < l.wakeups) } else none
  | .handleRead, .handle true => some { l with phase := .handle false, wakeups := 0 }
  | .handled, .handle false => some { l with phase := .swap, callingPendingFunctors := true }
  | .swap, .swap => some { l with phase := .call l.pendingFunctors, pendingFunctors := [] }
  | .call, .call (f :: fs) => some { l with phase := .call fs, called := l.called ++ [f] }
  | .calledAll, .call [] => some { l with phase := .test, callingPendingFunctors := false }
  | .queueInLoop f, p => if p.callsOut then some (l.queueInLoop f) else none
  | .quit, p => if p.callsOut then some { l with quit := true } else none
  | .post f, _ => some { l.push f with waking := l.waking + 1 }
  | .requestQuit, _ => some { l with quit := true, waking := l.waking + 1 }
  | .wakeup, _ => if 0 < l.waking then some { l.wakeup with waking := l.waking - 1 } else none
  | _, _ => none

/-- The functor that an action puts into the queue. -/
def Action.posts : Action F → Option F
  | .queueInLoop f | .post f => some f
  | _ => none

/-- The functors that a run puts into the queue, in the order of the pushes. -/
def posted (as : List (Action F)) : List F := as.filterMap Action.posts

variable {l l' : EventLoop F} {a : Action F} {as : List (Action F)}

/-- The ways in which a step can go. -/
inductive Step (l : EventLoop F) : Action F → EventLoop F → Prop
  | loop (h : l.phase = .idle) : Step l .loop { l with phase := .test, quit := false }
  | leave (h : l.phase = .test) (hquit : l.quit = true) : Step l .test { l with phase := .idle }
  | wait (h : l.phase = .test) (hquit : l.quit = false) : Step l .test { l with phase := .poll }
  | poll {event : Bool} (h : l.phase = .poll) (hready : event = true ∨ 0 < l.wakeups) :
    Step l (.poll event) { l with phase := .handle (0 < l.wakeups) }
  | handleRead (h : l.phase = .handle true) :
    Step l .handleRead { l with phase := .handle false, wakeups := 0 }
  | handled (h : l.phase = .handle false) :
    Step l .handled { l with phase := .swap, callingPendingFunctors := true }
  | swap (h : l.phase = .swap) :
    Step l .swap { l with phase := .call l.pendingFunctors, pendingFunctors := [] }
  | call {f : F} {fs : List F} (h : l.phase = .call (f :: fs)) :
    Step l .call { l with phase := .call fs, called := l.called ++ [f] }
  | calledAll (h : l.phase = .call []) :
    Step l .calledAll { l with phase := .test, callingPendingFunctors := false }
  | queueInLoop {f : F} (h : l.phase.callsOut = true) :
    Step l (.queueInLoop f) (l.queueInLoop f)
  | quit (h : l.phase.callsOut = true) : Step l .quit { l with quit := true }
  | post {f : F} : Step l (.post f) { l.push f with waking := l.waking + 1 }
  | requestQuit : Step l .requestQuit { l with quit := true, waking := l.waking + 1 }
  | wakeup (h : 0 < l.waking) : Step l .wakeup { l.wakeup with waking := l.waking - 1 }

theorem step_eq_some (h : step l a = some l') : Step l a l' := by
  unfold step at h
  split at h
  case h_2 hp =>
    cases h
    by_cases hquit : l.quit
    · rw [if_pos hquit]
      exact .leave hp hquit
    · rw [if_neg hquit]
      exact .wait hp (by simpa using hquit)
  case h_3 hp =>
    split_ifs at h with hready
    cases h
    exact .poll hp (by simpa using hready)
  case h_9 =>
    split_ifs at h with hout
    cases h
    exact .queueInLoop hout
  case h_10 =>
    split_ifs at h with hout
    cases h
    exact .quit hout
  case h_13 =>
    split_ifs at h with hwaking
    cases h
    exact .wakeup hwaking
  all_goals cases h
  · exact .loop ‹_›
  · exact .handleRead ‹_›
  · exact .handled ‹_›
  · exact .swap ‹_›
  · exact .call ‹_›
  · exact .calledAll ‹_›
  · exact .post
  · exact .requestQuit

/-- All functors that have been posted, from the first to the last. -/
def EventLoop.order (l : EventLoop F) : List F :=
  l.called ++ l.phase.functors ++ l.pendingFunctors

theorem EventLoop.queueInLoop_order (f : F) : (l.queueInLoop f).order = l.order ++ [f] := by
  unfold queueInLoop
  split_ifs <;> simp [order, push, wakeup]

theorem step_order (h : step l a = some l') : l'.order = l.order ++ a.posts.toList := by
  cases step_eq_some h with
  | swap hp | call hp | calledAll hp => simp [EventLoop.order, Action.posts, Phase.functors, hp]
  | queueInLoop => exact l.queueInLoop_order _
  | post => simp [EventLoop.order, EventLoop.push, Action.posts]
  | loop hp | leave hp | wait hp | poll hp | handleRead hp | handled hp =>
    simp [EventLoop.order, Action.posts, Phase.functors, hp]
  | quit | requestQuit | wakeup => simp [EventLoop.order, EventLoop.wakeup, Action.posts]

theorem run_order (h : run step l as = some l') : l'.order = l.order ++ posted as := by
  induction as generalizing l with
  | nil =>
    cases h
    simp [posted]
  | cons a as ih =>
    obtain ⟨l₁, h₁, h⟩ := run_cons_eq_some.mp h
    rw [ih h, step_order h₁, List.append_assoc, posted, posted, List.filterMap_cons]
    cases a.posts <;> rfl

/-- A functor is called once, and functors are called in the order of the pushes: what has been
called, what has been taken from the queue and what is in it make up what has been posted. -/
theorem called_inOrder (h : run step .create as = some l) :
    posted as = l.called ++ l.phase.functors ++ l.pendingFunctors :=
  (run_order h).symm

/-- The second functor is posted by the first, and the third by another thread. -/
theorem called_inOrder_nested :
    ∃ (as : List (Action ℕ)) (l : EventLoop ℕ), run step .create as = some l ∧
      posted as = [1, 2, 3] ∧ posted as = l.called ++ l.phase.functors ++ l.pendingFunctors :=
  ⟨[.loop, .test, .post 1, .wakeup, .poll false, .handleRead, .handled, .swap, .call,
      .queueInLoop 2, .post 3, .calledAll, .test, .poll false, .handleRead],
    ⟨.handle false, false, false, [2, 3], 0, 1, [1]⟩, by decide, by decide,
    called_inOrder (by decide)⟩

/-- The loop's own thread posts from callbacks only, and not before `loop` or behind it. -/
def fromCallback (l : EventLoop F) : Action F → Bool
  | .queueInLoop _ =>
    match l.phase with
    | .idle => false
    | _ => true
  | _ => true

/-- In these phases the swap is still to come, and takes what is in the queue. -/
def Phase.serves : Phase F → Bool
  | .handle _ | .swap => true
  | _ => false

/-- In these phases `callingPendingFunctors_` is set. -/
def Phase.calling : Phase F → Bool
  | .swap | .call _ => true
  | _ => false

/-- The loop's thread cannot sleep over a functor or a request to quit: the eventfd is readable,
or the thread that made the request is about to write to it. -/
structure Alert (l : EventLoop F) : Prop where
  calling : l.callingPendingFunctors = l.phase.calling
  functors : l.phase.serves = false → l.pendingFunctors ≠ [] → 0 < l.wakeups + l.waking
  quit : l.phase = .poll → l.quit = true → 0 < l.wakeups + l.waking

theorem alert_create : Alert (.create : EventLoop F) :=
  ⟨rfl, fun _ h => absurd rfl h, nofun⟩

theorem EventLoop.wakeups_wakeup_pos (l : EventLoop F) : 0 < l.wakeup.wakeups := by
  simp only [wakeup]
  omega

theorem Alert.queueInLoop (hl : Alert l) {f : F} (hout : l.phase.callsOut = true)
    (hcb : fromCallback l (.queueInLoop f) = true) : Alert (l.queueInLoop f) := by
  have hphase : (l.queueInLoop f).phase = l.phase := by
    unfold EventLoop.queueInLoop
    split_ifs <;> rfl
  have hcalling : (l.queueInLoop f).callingPendingFunctors = l.callingPendingFunctors := by
    unfold EventLoop.queueInLoop
    split_ifs <;> rfl
  refine ⟨by rw [hphase, hcalling, hl.calling], fun hserves _ => ?_, fun hpoll => ?_⟩
  · -- The only such phase with callbacks is the calling of functors, and there it wakes itself.
    rw [hphase] at hserves
    have hcall : l.callingPendingFunctors = true := by
      rw [hl.calling]
      cases hp : l.phase <;> simp_all [Phase.serves, Phase.callsOut, Phase.calling, fromCallback]
    rw [EventLoop.queueInLoop, if_pos hcall]
    exact Nat.add_pos_left (l.push f).wakeups_wakeup_pos _
  · rw [hphase] at hpoll
    rw [hpoll] at hout
    cases hout

theorem step_alert (hl : Alert l) (hcb : fromCallback l a = true) (h : step l a = some l') :
    Alert l' := by
  cases step_eq_some h with
  | loop hp | leave hp | calledAll hp =>
    exact ⟨by simp [Phase.calling, hl.calling, hp],
      fun _ => hl.functors (by rw [hp]; rfl), nofun⟩
  | wait hp hquit =>
    exact ⟨by simp [Phase.calling, hl.calling, hp],
      fun _ => hl.functors (by rw [hp]; rfl), fun _ hq => by simp_all⟩
  | poll hp | handleRead hp => exact ⟨by simp [Phase.calling, hl.calling, hp], nofun, nofun⟩
  | handled => exact ⟨rfl, nofun, nofun⟩
  | swap hp => exact ⟨by simp [Phase.calling, hl.calling, hp], fun _ h => absurd rfl h, nofun⟩
  | call hp =>
    exact ⟨by simp [Phase.calling, hl.calling, hp],
      fun _ => hl.functors (by rw [hp]; rfl), nofun⟩
  | queueInLoop hout => exact hl.queueInLoop hout hcb
  | quit hout =>
    refine ⟨hl.calling, hl.functors, fun hpoll => ?_⟩
    simp only at hpoll
    rw [hpoll] at hout
    cases hout
  | post => exact ⟨hl.calling, fun _ _ => Nat.succ_pos _, fun _ _ => Nat.succ_pos _⟩
  | requestQuit => exact ⟨hl.calling, fun _ _ => Nat.succ_pos _, fun _ _ => Nat.succ_pos _⟩
  | wakeup =>
    have hpos := l.wakeups_wakeup_pos
    exact ⟨hl.calling, fun _ _ => Nat.add_pos_left hpos _, fun _ _ => Nat.add_pos_left hpos _⟩

/-- Every state of a run in which the loop's own thread posts from callbacks only. -/
theorem run_alert (hcb : Meets step (fun l a => fromCallback l a = true) .create as)
    (h : run step .create as = some l) : Alert l :=
  run_invariant step_alert alert_create hcb h

/-- A functor that the loop's thread posts before `loop` is not announced. -/
example : run step .create [.queueInLoop 1, .loop, .test] =
    some (⟨.poll, false, false, [1], 0, 0, []⟩ : EventLoop ℕ) := by decide

/-- A `quit` that comes before `loop` is lost. -/
example : run step .create [.quit, .loop, .test] =
    some (⟨.poll, false, false, [], 0, 0, []⟩ : EventLoop ℕ) := by decide

/-- One turn of the loop that only the eventfd has woken, with nothing posted meanwhile. -/
def turn (l : EventLoop F) : List (Action F) :=
  [.poll false, .handleRead, .handled, .swap] ++
    List.replicate l.pendingFunctors.length .call ++ [.calledAll]

end Step

end LibWebsocket.Loop
