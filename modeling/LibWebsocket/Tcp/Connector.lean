import LibWebsocket.Lib.Run
import LibWebsocket.Tcp.Io

/-! `Connector`, in the thread of its loop. A channel is removed from the loop at once but
destroyed by a queued function, so that what a call finds in `channel_` depends on the functions
that have run before it. The assertions of this class are compiled in; one that fails ends the
process, and so does a null pointer. File descriptors are left out. -/
namespace LibWebsocket.Tcp
open Lib

def EADDRINUSE : ℕ := 98
def EADDRNOTAVAIL : ℕ := 99
def ENETUNREACH : ℕ := 101
def EISCONN : ℕ := 106
def ECONNREFUSED : ℕ := 111

namespace Connector

inductive States
  | kDisconnected
  | kConnecting
  | kConnected
deriving DecidableEq, Repr

/-- A channel, by its number among those created, and whether the loop has it. -/
structure Chan where
  id : ℕ
  registered : Bool
deriving DecidableEq, Repr

/-- The entries of three functions with the channel they find, and for `resetChannel` the number
of channels there were when it was queued; and what becomes of the sockets. -/
inductive Event
  | connecting (channel : Option Chan)
  | removeAndResetChannel (channel : Option Chan)
  | resetChannel (channel : Option Chan) (created : ℕ)
  | newConnection
  | close
deriving DecidableEq, Repr

def kMaxRetryDelayMs : ℕ := 30 * 1000
def kInitRetryDelayMs : ℕ := 500

/-- The results of `connect(2)` with which the connection is in progress. -/
def inProgress : List ℕ := [0, EINPROGRESS, EINTR, EISCONN]

def toRetry : List ℕ := [EAGAIN, EADDRINUSE, EADDRNOTAVAIL, ECONNREFUSED, ENETUNREACH]

end Connector

/-- `functors` are the queued calls of `resetChannel`, each with the number of channels created
before it, and `timers` the delays of the retries that wait. -/
structure Connector where
  connect_ : Bool
  state : Connector.States
  channel : Option Connector.Chan
  retryDelayMs : ℕ
  functors : List ℕ
  timers : List ℕ
  created : ℕ
  alive : Bool
  trace : List Connector.Event
deriving DecidableEq, Repr

namespace Connector

/-- The constructor. -/
def create : Connector where
  connect_ := false
  state := .kDisconnected
  channel := none
  retryDelayMs := kInitRetryDelayMs
  functors := []
  timers := []
  created := 0
  alive := true
  trace := []

def log (c : Connector) (e : Event) : Connector := { c with trace := c.trace ++ [e] }

def abort (c : Connector) : Connector := { c with alive := false }

def connecting (c : Connector) : Connector :=
  let c₁ := { c.log (.connecting c.channel) with state := .kConnecting }
  if c.channel = none then
    { c₁ with channel := some ⟨c.created, true⟩, created := c.created + 1 }
  else c₁.abort

def retry (c : Connector) : Connector :=
  let c₁ := { c.log .close with state := .kDisconnected }
  if c.connect_ then
    { c₁ with
      timers := c.timers ++ [c.retryDelayMs]
      retryDelayMs := min (c.retryDelayMs * 2) kMaxRetryDelayMs }
  else c₁

/-- `errno` is the result of `connect(2)`, or 0. -/
def connect (c : Connector) (errno : ℕ) : Connector :=
  if errno ∈ inProgress then c.connecting
  else if errno ∈ toRetry then c.retry
  else c.log .close

def startInLoop (c : Connector) (errno : ℕ) : Connector :=
  if c.state ≠ .kDisconnected then c.abort
  else if c.connect_ then c.connect errno
  else c

def start (c : Connector) (errno : ℕ) : Connector := startInLoop { c with connect_ := true } errno

def restart (c : Connector) (errno : ℕ) : Connector :=
  startInLoop
    { c with state := .kDisconnected, retryDelayMs := kInitRetryDelayMs, connect_ := true } errno

/-- `next` is what the caller does with the socket. A channel that the loop does not have any more
is added and removed again. -/
def removeAndResetChannel (c : Connector) (next : Connector → Connector) : Connector :=
  let c₁ := c.log (.removeAndResetChannel c.channel)
  match c.channel with
  | none => c₁.abort
  | some ch =>
    next { c₁ with
      channel := some { ch with registered := false }, functors := c.functors ++ [c.created] }

def stopInLoop (c : Connector) : Connector :=
  match c.state with
  | .kConnecting => removeAndResetChannel { c with state := .kDisconnected } retry
  | .kConnected => removeAndResetChannel { c with state := .kDisconnected } id
  | .kDisconnected => c

def stop (c : Connector) : Connector := stopInLoop { c with connect_ := false }

/-- `handleWrite` with a connection that stands. -/
def connected (c : Connector) : Connector :=
  { c.log (if c.connect_ then .newConnection else .close) with state := .kConnected }

def handleWrite (c : Connector) (err : ℕ) (isSelfConnect : Bool) : Connector :=
  match c.state with
  | .kConnecting =>
    c.removeAndResetChannel fun c₁ => if err ≠ 0 ∨ isSelfConnect then c₁.retry else c₁.connected
  | .kDisconnected => c
  | .kConnected => c.abort

def handleError (c : Connector) : Connector :=
  if c.state = .kConnecting then c.removeAndResetChannel retry else c

-- The destructor of a channel asserts that the loop does not have it.
def resetChannel (c : Connector) (created : ℕ) : Connector :=
  { c.log (.resetChannel c.channel created) with
    channel := none, alive := c.channel.all (!·.registered) }

/-! ## Runs -/

/-- Calls of the connector with the results of `connect(2)` if it is called, the events of its
channel, the retry timer number `i`, and the functor that was queued first. -/
inductive Action
  | start (errno : ℕ)
  | stop
  | restart (errno : ℕ)
  | timer (i errno : ℕ)
  | handleWrite (err : ℕ) (isSelfConnect : Bool)
  | handleError
  | resetChannel
deriving DecidableEq, Repr

/-- A channel that has been removed may still have an event in the round of the loop that removed
it; one that has been destroyed has none. -/
def perform (c : Connector) : Action → Option Connector
  | .start errno => some (c.start errno)
  | .stop => some c.stop
  | .restart errno => some (c.restart errno)
  | .timer i errno =>
    if i < c.timers.length then
      some (startInLoop { c with timers := c.timers.eraseIdx i } errno)
    else none
  | .handleWrite err isSelfConnect =>
    if c.channel = none then none else some (c.handleWrite err isSelfConnect)
  | .handleError => if c.channel = none then none else some c.handleError
  | .resetChannel =>
    match c.functors with
    | [] => none
    | created :: functors => some (resetChannel { c with functors := functors } created)

def step (c : Connector) (a : Action) : Option Connector := if c.alive then c.perform a else none

/-- What a step has done. -/
def Performs (c c' : Connector) : Action → Prop
  | .start errno => c' = c.start errno
  | .stop => c' = c.stop
  | .restart errno => c' = c.restart errno
  | .timer i errno => c' = startInLoop { c with timers := c.timers.eraseIdx i } errno
  | .handleWrite err isSelfConnect => c' = c.handleWrite err isSelfConnect
  | .handleError => c' = c.handleError
  | .resetChannel => ∃ created functors, c.functors = created :: functors ∧
      c' = resetChannel { c with functors := functors } created

theorem step_eq_some {c c' : Connector} {a : Action} (h : c.step a = some c') :
    c.Performs c' a := by
  unfold step at h
  split_ifs at h
  cases a with
  | start errno | stop | restart errno => exact (Option.some.inj h).symm
  | timer i errno | handleWrite err isSelfConnect | handleError =>
    dsimp only [perform] at h
    split_ifs at h
    exact (Option.some.inj h).symm
  | resetChannel =>
    dsimp only [perform] at h
    split at h
    · cases h
    · rename_i created functors hfunctors
      exact ⟨created, functors, hfunctors, (Option.some.inj h).symm⟩

/-! ## The discipline of the channel -/

def Event.Disciplined : Event → Prop
  | .connecting channel => channel = none
  | .removeAndResetChannel channel => channel.any (·.registered)
  | .resetChannel channel created => channel.all (·.id < created)
  | .newConnection | .close => True

/-- `connecting` has found no channel and `removeAndResetChannel` one that was registered, and no
`resetChannel` has destroyed a channel created after it was queued. -/
def Disciplined (c : Connector) : Prop := ∀ e ∈ c.trace, e.Disciplined

/-- `stop` is not called once the connection stands, and a connection is in progress only when
there is no channel: the one before it has come to an end, and its `resetChannel` has run. -/
def ActionOk (c : Connector) : Action → Prop
  | .start errno => c.state = .kDisconnected → errno ∈ inProgress → c.channel = none
  | .stop => c.state ≠ .kConnected
  | .restart errno => errno ∈ inProgress → c.channel = none
  | .timer _ errno =>
    c.state = .kDisconnected → c.connect_ = true → errno ∈ inProgress → c.channel = none
  | .handleWrite _ _ | .handleError | .resetChannel => True

instance {c : Connector} : ∀ {a : Action}, Decidable (c.ActionOk a)
  | .start _ => inferInstanceAs (Decidable (_ → _))
  | .stop => inferInstanceAs (Decidable (_ ≠ _))
  | .restart _ => inferInstanceAs (Decidable (_ → _))
  | .timer _ _ => inferInstanceAs (Decidable (_ → _))
  | .handleWrite _ _ | .handleError | .resetChannel => .isTrue trivial

section Trace
variable {c : Connector} {e : Event} {errno n : ℕ}

theorem disciplined_log : (c.log e).Disciplined ↔ c.Disciplined ∧ e.Disciplined := by
  rw [Disciplined, log, List.forall_mem_append, List.forall_mem_singleton]
  rfl

theorem disciplined_connecting :
    c.connecting.Disciplined ↔ c.Disciplined ∧ c.channel = none := by
  dsimp only [connecting]
  split_ifs <;> exact disciplined_log

theorem disciplined_retry : c.retry.Disciplined ↔ c.Disciplined := by
  have hclose : (c.log .close).Disciplined ↔ c.Disciplined :=
    disciplined_log.trans (and_iff_left trivial)
  dsimp only [retry]
  split_ifs <;> exact hclose

theorem disciplined_connect :
    (c.connect errno).Disciplined ↔ c.Disciplined ∧ (errno ∈ inProgress → c.channel = none) := by
  unfold connect
  split_ifs with hp hr
  · rw [disciplined_connecting, forall_prop_of_true hp]
  · rw [disciplined_retry, and_iff_left fun h => absurd h hp]
  · exact disciplined_log.trans (and_congr_right' (iff_of_true trivial fun h => absurd h hp))

theorem disciplined_startInLoop : (c.startInLoop errno).Disciplined ↔ c.Disciplined ∧
    (c.state = .kDisconnected → c.connect_ = true → errno ∈ inProgress → c.channel = none) := by
  unfold startInLoop
  split_ifs with hs hc
  · exact (and_iff_left fun h => absurd h hs).symm
  · rw [disciplined_connect]
    simp [not_not.mp hs, hc]
  · exact (and_iff_left fun _ h => absurd h hc).symm

theorem disciplined_connected : c.connected.Disciplined ↔ c.Disciplined := by
  have hlog := disciplined_log (c := c) (e := if c.connect_ then .newConnection else .close)
  refine hlog.trans (and_iff_left ?_)
  split_ifs <;> exact trivial

theorem disciplined_removeAndResetChannel {next : Connector → Connector}
    (hnext : ∀ c₁, (next c₁).Disciplined ↔ c₁.Disciplined) :
    (c.removeAndResetChannel next).Disciplined ↔
      c.Disciplined ∧ c.channel.any (·.registered) := by
  have hlog : (c.log (.removeAndResetChannel c.channel)).Disciplined ↔
      c.Disciplined ∧ c.channel.any (·.registered) := disciplined_log
  rw [← hlog]
  dsimp only [removeAndResetChannel]
  split
  · rfl
  · exact hnext _

theorem disciplined_resetChannel : (c.resetChannel n).Disciplined ↔
    c.Disciplined ∧ c.channel.all (·.id < n) := disciplined_log

/-- What the action demands of the channel it finds. -/
def Found (c : Connector) : Action → Prop
  | .start errno => c.state = .kDisconnected → errno ∈ inProgress → c.channel = none
  | .stop => c.state ≠ .kDisconnected → c.channel.any (·.registered)
  | .restart errno => errno ∈ inProgress → c.channel = none
  | .timer _ errno =>
    c.state = .kDisconnected → c.connect_ = true → errno ∈ inProgress → c.channel = none
  | .handleWrite _ _ | .handleError => c.state = .kConnecting → c.channel.any (·.registered)
  | .resetChannel => ∀ created, c.functors.head? = some created → c.channel.all (·.id < created)

theorem disciplined_stop : c.stop.Disciplined ↔ c.Disciplined ∧ c.Found .stop := by
  dsimp only [stop, stopInLoop, Found]
  split <;> rename_i hs
  · rw [disciplined_removeAndResetChannel fun _ => disciplined_retry]
    simp [hs, Disciplined]
  · have hid : ∀ c₁ : Connector, (id c₁).Disciplined ↔ c₁.Disciplined := fun _ => Iff.rfl
    rw [disciplined_removeAndResetChannel hid]
    simp [hs, Disciplined]
  · exact (and_iff_left fun h => absurd hs h).symm

theorem disciplined_handleWrite {err : ℕ} {isSelfConnect : Bool} :
    (c.handleWrite err isSelfConnect).Disciplined ↔
      c.Disciplined ∧ c.Found (.handleWrite err isSelfConnect) := by
  dsimp only [handleWrite, Found]
  split <;> rename_i hs
  · rw [disciplined_removeAndResetChannel, forall_prop_of_true hs]
    intro c₁
    split_ifs
    · exact disciplined_retry
    · exact disciplined_connected
  all_goals exact (and_iff_left fun h => by simp [hs] at h).symm

theorem disciplined_handleError :
    c.handleError.Disciplined ↔ c.Disciplined ∧ c.Found .handleError := by
  dsimp only [handleError, Found]
  split_ifs with hs
  · rw [disciplined_removeAndResetChannel fun _ => disciplined_retry, forall_prop_of_true hs]
  · exact (and_iff_left fun h => absurd h hs).symm

theorem disciplined_step {c' : Connector} {a : Action} (hstep : c.step a = some c') :
    c'.Disciplined ↔ c.Disciplined ∧ c.Found a := by
  have hdone := step_eq_some hstep
  cases a with
  | start errno =>
    obtain rfl : c' = c.start errno := hdone
    refine disciplined_startInLoop.trans ?_
    simp [Found, Disciplined]
  | stop =>
    obtain rfl : c' = c.stop := hdone
    exact disciplined_stop
  | restart errno =>
    obtain rfl : c' = c.restart errno := hdone
    refine disciplined_startInLoop.trans ?_
    simp [Found, Disciplined]
  | timer i errno =>
    obtain rfl : c' = startInLoop { c with timers := c.timers.eraseIdx i } errno := hdone
    exact disciplined_startInLoop
  | handleWrite err isSelfConnect =>
    obtain rfl : c' = c.handleWrite err isSelfConnect := hdone
    exact disciplined_handleWrite
  | handleError =>
    obtain rfl : c' = c.handleError := hdone
    exact disciplined_handleError
  | resetChannel =>
    obtain ⟨created, functors, hfunctors, rfl⟩ := hdone
    refine disciplined_resetChannel.trans ?_
    simp [Found, Disciplined, hfunctors]

end Trace

/-! ## The channel and the queue -/

/-- The channel was removed, and one `resetChannel` is queued to destroy it. -/
def Removed (c : Connector) : Prop :=
  ∃ id created, c.channel = some ⟨id, false⟩ ∧ c.functors = [created] ∧ id < created

/-- As long as the discipline is kept, there is no channel and nothing queued; or a channel that
the loop has, perhaps of an attempt that `restart` gave up; or one that was removed. -/
inductive Shape (c : Connector) : Prop
  | idle (hchannel : c.channel = none) (hfunctors : c.functors = [])
      (hstate : c.state ≠ .kConnecting)
  | active {id : ℕ} (hchannel : c.channel = some ⟨id, true⟩) (hfunctors : c.functors = [])
      (hid : id < c.created) (hstate : c.state ≠ .kConnected)
  | removed (hremoved : c.Removed) (hstate : c.state ≠ .kConnecting)

section Invariant
variable {c c' : Connector} {a : Action} {errno : ℕ}

theorem Removed.retry (h : c.Removed) : c.retry.Shape := by
  dsimp only [Connector.retry]
  split_ifs <;> exact .removed h States.noConfusion

theorem Removed.connected (h : c.Removed) : c.connected.Shape := .removed h States.noConfusion

namespace Shape

/-- `kDisconnected` goes with every shape. -/
theorem of_eq (h : c.Shape) (hchannel : c'.channel = c.channel)
    (hfunctors : c'.functors = c.functors) (hcreated : c'.created = c.created)
    (hstate : c'.state = .kDisconnected ∨ c'.state = c.state) : c'.Shape := by
  have hkeep : ∀ s, s ≠ .kDisconnected → c.state ≠ s → c'.state ≠ s := by
    rintro s hs hne rfl
    exact hstate.elim hs fun h => hne h.symm
  cases h with
  | idle hc hf hs =>
    exact .idle (hchannel.trans hc) (hfunctors.trans hf) (hkeep _ States.noConfusion hs)
  | active hc hf hid hs =>
    exact .active (hchannel.trans hc) (hfunctors.trans hf) (hcreated ▸ hid)
      (hkeep _ States.noConfusion hs)
  | removed hr hs =>
    refine .removed ?_ (hkeep _ States.noConfusion hs)
    rwa [Removed, hchannel, hfunctors]

theorem retry (h : c.Shape) : c.retry.Shape := by
  dsimp only [Connector.retry]
  split_ifs <;> exact h.of_eq rfl rfl rfl (Or.inl rfl)

theorem connecting (h : c.Shape) (hnone : c.channel = none) : c.connecting.Shape := by
  have hfunctors : c.functors = [] := by
    cases h with
    | idle _ hf _ => exact hf
    | active hc _ _ _ => simp [hnone] at hc
    | removed hr _ =>
      obtain ⟨id, created, hc, -⟩ := hr
      simp [hnone] at hc
  dsimp only [Connector.connecting]
  rw [if_pos hnone]
  exact .active rfl hfunctors (Nat.lt_succ_self _) States.noConfusion

theorem startInLoop (h : c.Shape) (hok : c.state = .kDisconnected → c.connect_ = true →
    errno ∈ inProgress → c.channel = none) : (c.startInLoop errno).Shape := by
  unfold Connector.startInLoop connect
  split_ifs with hs hc hp hr
  · exact h.of_eq rfl rfl rfl (Or.inr rfl)
  · exact h.connecting (hok (not_not.mp hs) hc hp)
  · exact h.retry
  · exact h.of_eq rfl rfl rfl (Or.inr rfl)
  · exact h

theorem removeAndResetChannel {next : Connector → Connector} (h : c.Shape)
    (hfound : c.channel.any (·.registered)) (hnext : ∀ c₁ : Connector, c₁.Removed → (next c₁).Shape) :
    (c.removeAndResetChannel next).Shape := by
  cases h with
  | idle hc _ _ => simp [hc] at hfound
  | @active id hc hf hid hs =>
    dsimp only [Connector.removeAndResetChannel]
    rw [hc]
    exact hnext _ ⟨id, c.created, rfl, by simp [hf], hid⟩
  | removed hr _ =>
    obtain ⟨id, created, hc, -⟩ := hr
    simp [hc] at hfound

/-- Only an attempt has a channel that the loop has. -/
theorem registered_iff (h : c.Shape) (hs : c.state ≠ .kDisconnected) :
    c.channel.any (·.registered) ↔ c.state ≠ .kConnected := by
  cases h with
  | idle hc _ hne =>
    cases hstate : c.state <;> simp_all
  | active hc _ _ hne => simp [hc, hne]
  | removed hr hne =>
    obtain ⟨id, created, hc, -⟩ := hr
    cases hstate : c.state <;> simp_all

theorem stop (h : c.Shape) (hfound : c.Found .stop) : c.stop.Shape := by
  have hstopped : Shape { c with connect_ := false, state := .kDisconnected } :=
    h.of_eq rfl rfl rfl (Or.inl rfl)
  dsimp only [Connector.stop, stopInLoop]
  split <;> rename_i hs
  · exact hstopped.removeAndResetChannel (hfound (by simp [hs])) fun _ hr => hr.retry
  · have hne : c.state ≠ .kDisconnected := by simp [hs]
    exact absurd hs ((h.registered_iff hne).mp (hfound hne))
  · exact h.of_eq rfl rfl rfl (Or.inr rfl)

theorem handleWrite {err : ℕ} {isSelfConnect : Bool} (h : c.Shape)
    (hfound : c.Found (.handleWrite err isSelfConnect)) :
    (c.handleWrite err isSelfConnect).Shape := by
  dsimp only [Connector.handleWrite]
  split <;> rename_i hs
  · refine h.removeAndResetChannel (hfound hs) fun c₁ hr => ?_
    split_ifs
    · exact hr.retry
    · exact hr.connected
  · exact h
  · exact h.of_eq rfl rfl rfl (Or.inr rfl)

theorem handleError (h : c.Shape) (hfound : c.Found .handleError) : c.handleError.Shape := by
  unfold Connector.handleError
  split_ifs with hs
  · exact h.removeAndResetChannel (hfound hs) fun _ hr => hr.retry
  · exact h

/-- Something is queued only for a channel that was removed. -/
theorem removed_of_functors (h : c.Shape) {created : ℕ} {functors : List ℕ}
    (hf : c.functors = created :: functors) :
    ∃ id, c.channel = some ⟨id, false⟩ ∧ functors = [] ∧ id < created ∧
      c.state ≠ .kConnecting := by
  cases h with
  | idle _ hnil _ => simp [hf] at hnil
  | active _ hnil _ _ => simp [hf] at hnil
  | removed hr hs =>
    obtain ⟨id, created', hc, hone, hid⟩ := hr
    obtain ⟨rfl, rfl⟩ := List.cons.inj (hf.symm.trans hone)
    exact ⟨id, hc, rfl, hid, hs⟩

theorem step (h : c.Shape) (hfound : c.Found a) (hstep : c.step a = some c') : c'.Shape := by
  have hdone := step_eq_some hstep
  cases a with
  | start errno =>
    have hwanted : Shape { c with connect_ := true } := h.of_eq rfl rfl rfl (Or.inr rfl)
    obtain rfl : c' = c.start errno := hdone
    exact hwanted.startInLoop fun hs _ => hfound hs
  | stop =>
    obtain rfl : c' = c.stop := hdone
    exact h.stop hfound
  | restart errno =>
    have hnew : Shape { c with
        state := .kDisconnected, retryDelayMs := kInitRetryDelayMs, connect_ := true } :=
      h.of_eq rfl rfl rfl (Or.inl rfl)
    obtain rfl : c' = c.restart errno := hdone
    exact hnew.startInLoop fun _ _ => hfound
  | timer i errno =>
    have hfired : Shape { c with timers := c.timers.eraseIdx i } := h.of_eq rfl rfl rfl (Or.inr rfl)
    obtain rfl : c' = Connector.startInLoop { c with timers := c.timers.eraseIdx i } errno := hdone
    exact hfired.startInLoop hfound
  | handleWrite err isSelfConnect =>
    obtain rfl : c' = c.handleWrite err isSelfConnect := hdone
    exact h.handleWrite hfound
  | handleError =>
    obtain rfl : c' = c.handleError := hdone
    exact h.handleError hfound
  | resetChannel =>
    obtain ⟨created, functors, hfunctors, rfl⟩ := hdone
    obtain ⟨-, -, hnil, -, hs⟩ := h.removed_of_functors hfunctors
    exact .idle rfl hnil hs

/-- In a shape, the demands on the channel are those of the condition. -/
theorem found_iff (h : c.Shape) : c.Found a ↔ c.ActionOk a := by
  cases a with
  | start errno | restart errno | timer i errno => exact Iff.rfl
  | stop =>
    dsimp only [Found, ActionOk]
    by_cases hs : c.state = .kDisconnected
    · simp [hs]
    · rw [forall_prop_of_true hs, h.registered_iff hs]
  | handleWrite err isSelfConnect =>
    exact iff_of_true (fun hs => (h.registered_iff (by simp [hs])).mpr (by simp [hs])) trivial
  | handleError =>
    exact iff_of_true (fun hs => (h.registered_iff (by simp [hs])).mpr (by simp [hs])) trivial
  | resetChannel =>
    refine iff_of_true (fun created hhead => ?_) trivial
    obtain ⟨functors, hf⟩ := List.head?_eq_some_iff.mp hhead
    obtain ⟨id, hc, -, hid, -⟩ := h.removed_of_functors hf
    simp [hc, hid]

end Shape

theorem disciplined_step_iff (h : c.Disciplined → c.Shape) (hstep : c.step a = some c') :
    c'.Disciplined ↔ c.Disciplined ∧ c.ActionOk a := by
  rw [disciplined_step hstep]
  exact and_congr_right fun hd => (h hd).found_iff

theorem shape_step (h : c.Disciplined → c.Shape) (hstep : c.step a = some c') (hd : c'.Disciplined) :
    c'.Shape := by
  obtain ⟨hd, hfound⟩ := (disciplined_step hstep).mp hd
  exact (h hd).step hfound hstep

end Invariant

/-- A run keeps the discipline of the channel exactly if all its actions meet the condition. -/
theorem disciplined_iff_of_run {c : Connector} {as : List Action}
    (hrun : run step create as = some c) : c.Disciplined ↔ Meets step ActionOk create as := by
  refine run_iff_meets (R := fun c => c.Disciplined → c.Shape) shape_step disciplined_step_iff
    (fun _ => .idle rfl rfl States.noConfusion) (fun e he => ?_) hrun
  cases he

/-- Refused, tried again when the timer comes, and connected. -/
def secondAttempt : List Action :=
  [.start EINPROGRESS, .handleError, .resetChannel, .timer 0 EINPROGRESS, .handleWrite 0 false,
    .resetChannel]

theorem disciplined_iff_of_run_secondAttempt : ∃ c, run step create secondAttempt = some c ∧
    .newConnection ∈ c.trace ∧ c.Disciplined := by
  have hrun : ∃ c, run step create secondAttempt = some c ∧ .newConnection ∈ c.trace :=
    ⟨_, rfl, by decide⟩
  obtain ⟨c, hrun, hmem⟩ := hrun
  exact ⟨c, hrun, hmem, (disciplined_iff_of_run hrun).mpr (by decide)⟩

/-- `stop` behind a connection that stands removes a channel that has been destroyed; and `stop`
and `start` behind one another, before the loop comes to `resetChannel`, find the old channel in
`connecting`. -/
theorem not_disciplined_stop :
    (∃ c, run step create [.start EINPROGRESS, .handleWrite 0 false, .resetChannel, .stop] = some c ∧
      ¬ c.Disciplined) ∧
    ∃ c, run step create [.start EINPROGRESS, .stop, .start EINPROGRESS] = some c ∧
      ¬ c.Disciplined := by
  refine ⟨⟨_, rfl, fun h => ?_⟩, _, rfl, fun h => ?_⟩
  · exact Bool.false_ne_true (h (.removeAndResetChannel none) (by decide))
  · exact Option.some_ne_none _ (h (.connecting (some ⟨0, false⟩)) (by decide))

end Connector

end LibWebsocket.Tcp
