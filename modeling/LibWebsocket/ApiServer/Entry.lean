import LibWebsocket.Lib.Run
import Mathlib.Data.List.Basic
import Mathlib.Logic.Function.Basic

/-! Entries of the timing wheel. An entry is shared by the buckets of the wheel, by temporaries
of the I/O thread and by the workers that process its connection; whoever drops the last
reference runs `Entry::~Entry`. One action is one atomic step of one thread. -/
namespace LibWebsocket.ApiServer
open Lib

/-- An entry with its reference count and a record of what was done for it: how often its
destructor was entered, and how often that called `onTimeoutExpired` and a worker called
`processHttpRequest`. -/
structure Entry where
  useCount : ℕ
  conn : Bool
  locked : Bool
  dtors : ℕ
  expired : ℕ
  processed : ℕ
deriving DecidableEq, Repr

namespace Entry

/-- The memory before an entry is made in it. -/
def unborn : Entry := ⟨0, false, false, 0, 0, 0⟩

/-- A new entry, held by `onHttpConnection`. -/
def create : Entry := ⟨1, true, false, 0, 0, 0⟩

def acquire (x : Entry) : Entry := { x with useCount := x.useCount + 1 }

/-- The last reference enters the destructor. -/
def release (x : Entry) : Entry :=
  { x with
    useCount := x.useCount - 1
    dtors := if x.useCount = 1 then x.dtors + 1 else x.dtors }

def setLocked (x : Entry) : Entry := { x with locked := true }

def processHttpRequest (x : Entry) : Entry := { x with processed := x.processed + 1 }

def closeConn (x : Entry) : Entry := { x with conn := false }

/-- The body of `Entry::~Entry`. -/
def dtor (x : Entry) : Entry :=
  if x.conn ∧ ¬ x.locked then { x with expired := x.expired + 1 } else x

end Entry

/-- Where a worker stands in `asyncHttpHandler`. -/
inductive Stage
  | idle
  | started (e : ℕ)
  | gotEntry (e : ℕ)
  | gotLocked (e : ℕ)
  | gotConn (e : ℕ)
  | finished (e : ℕ)
deriving DecidableEq, Repr

namespace Stage

/-- The worker owns a reference to the entry. -/
def holds (e : ℕ) : Stage → Bool
  | gotEntry x | gotLocked x | gotConn x | finished x => x = e
  | idle | started _ => false

/-- The worker has called `setLocked` on the entry. -/
def flagged (e : ℕ) : Stage → Bool
  | gotLocked x | gotConn x | finished x => x = e
  | idle | started _ | gotEntry _ => false

theorem holds_of_flagged {st : Stage} {e : ℕ} (h : st.flagged e = true) : st.holds e = true := by
  cases st <;> simp_all [flagged, holds]

end Stage

/-- A worker thread with its queue of tasks, each a weak pointer to an entry. -/
structure Worker where
  queue : List ℕ
  stage : Stage
deriving DecidableEq, Repr

/-- `buckets` is the wheel, oldest bucket first; `temporaries` are the references on the stack of
the I/O thread; `dying` are the entries whose destructor has been entered and not yet left. -/
structure State where
  next : ℕ
  entries : ℕ → Entry
  buckets : List (List ℕ)
  temporaries : List ℕ
  workers : List Worker
  dying : List ℕ

/-- The steps of `asyncHttpHandler`. -/
inductive HandlerStep
  | takeTask | lockWeakEntry | setLocked | lockConn | processHttpRequest | releaseEntry
deriving DecidableEq, Repr

/-- The steps of all threads. The I/O thread may use any reference on its stack, in any order. -/
inductive Action
  | onHttpConnection
  | pushBucket (e : ℕ)
  | updateBucket (e : ℕ)
  | onTimer
  | lockEntry (e : ℕ)
  | queueTask (i e : ℕ)
  | dropTemporary (e : ℕ)
  | asyncHttpHandler (i : ℕ) (a : HandlerStep)
  | dtor (e : ℕ)
  | closeConn (e : ℕ)
deriving DecidableEq, Repr

namespace State

/-- A wheel of `size` empty buckets and `workers` idle threads. -/
def create (size workers : ℕ) : State where
  next := 0
  entries _ := .unborn
  buckets := List.replicate size []
  temporaries := []
  workers := List.replicate workers ⟨[], .idle⟩
  dying := []

def modify (s : State) (e : ℕ) (f : Entry → Entry) : State :=
  { s with entries := Function.update s.entries e (f (s.entries e)) }

/-- Drop a reference. -/
def release (s : State) (e : ℕ) : State :=
  { s.modify e Entry.release with
    dying := if (s.entries e).useCount = 1 then e :: s.dying else s.dying }

def setWorker (s : State) (i : ℕ) (w : Worker) : State := { s with workers := s.workers.set i w }

/-- `buckets_.back().insert(entry)`. -/
def insertBack (e : ℕ) : List (List ℕ) → List (List ℕ)
  | [] => []
  | [b] => [b.insert e]
  | b :: b' :: bs => b :: insertBack e (b' :: bs)

/-- A bucket is a set: a second insertion does nothing. -/
def insertBucket (s : State) (e : ℕ) : State :=
  if (s.entries e).conn ∧ e ∉ s.buckets.getLastD [] then
    { s.modify e Entry.acquire with buckets := insertBack e s.buckets }
  else s

def pushBucket : State → ℕ → State := insertBucket

def updateBucket : State → ℕ → State := insertBucket

/-- The new bucket takes the place of the oldest one, whose references are then dropped one by
one. -/
def onTimer (s : State) : Option State :=
  match s.buckets with
  | [] => none
  | front :: rest => some { s with
      buckets := rest ++ [[]]
      temporaries := front ++ s.temporaries }

def asyncHttpHandler (s : State) (i : ℕ) : HandlerStep → Worker → Option State
  | .takeTask, ⟨e :: queue, .idle⟩ => some (s.setWorker i ⟨queue, .started e⟩)
  | .lockWeakEntry, ⟨queue, .started e⟩ =>
    if 0 < (s.entries e).useCount then
      some ((s.modify e Entry.acquire).setWorker i ⟨queue, .gotEntry e⟩)
    else some (s.setWorker i ⟨queue, .idle⟩)
  | .setLocked, ⟨queue, .gotEntry e⟩ =>
    some ((s.modify e Entry.setLocked).setWorker i ⟨queue, .gotLocked e⟩)
  | .lockConn, ⟨queue, .gotLocked e⟩ =>
    some (s.setWorker i ⟨queue, if (s.entries e).conn then .gotConn e else .finished e⟩)
  | .processHttpRequest, ⟨queue, .gotConn e⟩ =>
    some ((s.modify e Entry.processHttpRequest).setWorker i ⟨queue, .finished e⟩)
  | .releaseEntry, ⟨queue, .finished e⟩ => some ((s.release e).setWorker i ⟨queue, .idle⟩)
  | _, _ => none

def step (s : State) : Action → Option State
  | .onHttpConnection => some { s with
      next := s.next + 1
      entries := Function.update s.entries s.next .create
      temporaries := s.next :: s.temporaries }
  | .pushBucket e => if e ∈ s.temporaries then some (s.pushBucket e) else none
  | .updateBucket e => if e ∈ s.temporaries then some (s.updateBucket e) else none
  | .onTimer => s.onTimer
  | .lockEntry e =>
    if 0 < (s.entries e).useCount then
      some { s.modify e Entry.acquire with temporaries := e :: s.temporaries }
    else some s
  | .queueTask i e =>
    if e ∈ s.temporaries then
      (s.workers[i]?).map fun w => s.setWorker i { w with queue := w.queue ++ [e] }
    else none
  | .dropTemporary e =>
    if e ∈ s.temporaries then
      some { s.release e with temporaries := s.temporaries.erase e }
    else none
  | .dtor e =>
    if e ∈ s.dying then some { s.modify e Entry.dtor with dying := s.dying.erase e } else none
  | .closeConn e => if e < s.next then some (s.modify e Entry.closeConn) else none
  | .asyncHttpHandler i a => (s.workers[i]?).bind (s.asyncHttpHandler i a)

end State

end LibWebsocket.ApiServer
