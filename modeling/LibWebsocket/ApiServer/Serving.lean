import LibWebsocket.ApiServer.HttpMessage
import LibWebsocket.Http.Lines
import LibWebsocket.Lib.Run

/-! Who uses the parse context of a connection. The I/O thread parses every arrival with it, the
worker that handles a complete request resets it, and the timing wheel may destroy the entry
without which the worker does nothing. -/
namespace LibWebsocket.ApiServer
open Lib Http

/-- The tasks queued so far. -/
def HttpConn.queued (conn : HttpConn) : ℕ := conn.calls.count .asyncHttpHandler

/-- A connection with the tasks its worker has run and whether one of them locked the entry. -/
structure Serving extends HttpConn where
  handled : ℕ
  locked : Bool
deriving DecidableEq

/-- What the I/O thread and the worker do: an arrival is parsed, a task is run that answers `rsp`,
and the last reference to the entry is dropped. -/
inductive ServingAction
  | onHttpMessage (chunk : Bytes)
  | asyncHttpHandler (rsp : Bytes)
  | entryDtor
deriving DecidableEq, Repr

def timeoutResponse : Bytes :=
  (HttpResponse.failed true 404 (ascii "HTTP/1.1 505 timeout\r\n\r\n")).appendToBuffer

namespace Serving

def create (numTotalBadReq : ℕ) : Serving :=
  { HttpConn.create numTotalBadReq with handled := 0, locked := false }

/-- A task that finds no entry leaves the context as it is. -/
def asyncHttpHandler (s : Serving) (rsp : Bytes) : Option Serving :=
  if s.entry then
    if s.httpContext.gotAll then some { s with
      toHttpConn := { s.call [.send rsp] with httpContext := s.httpContext.reset }
      handled := s.handled + 1
      locked := true }
    else none
  else some { s with toHttpConn := s.countBadReq, handled := s.handled + 1 }

/-- An entry that no task has locked is answered, but its connection is not closed. -/
def entryDtor (s : Serving) : Serving :=
  { s with toHttpConn := { s.call (if s.locked then [] else [.send timeoutResponse]) with
      entry := false } }

/-- A call of `onHttpMessage` that does not return is refused. -/
def step (f : IpFilter) (s : Serving) : ServingAction → Option Serving
  | .onHttpMessage chunk =>
    match HttpConn.onHttpMessage f { s.toHttpConn with buf := s.buf ++ chunk } with
    | .ok conn => some { s with toHttpConn := conn }
    | .error _ => none
  | .asyncHttpHandler rsp =>
    if s.handled < s.queued then s.asyncHttpHandler rsp else none
  | .entryDtor => if s.entry then some s.entryDtor else none

/-- Between two steps the context is new or has a complete request, and a worker has a task only
in the second case. -/
structure Inv (s : Serving) : Prop where
  context : s.httpContext = .create ∨ s.httpContext.gotAll = true
  handled : s.handled ≤ s.queued
  tasks : s.queued ≤ s.handled + 1
  idle : s.httpContext.gotAll = false → s.queued = s.handled

theorem inv_create (n : ℕ) : (create n).Inv :=
  ⟨.inl rfl, Nat.le_refl 0, Nat.zero_le 1, fun _ => rfl⟩

variable {f : IpFilter} {s s' : Serving}

theorem parseRequest_isOk_iff (hs : s.Inv) (b : Bytes) :
    (∃ r, s.httpContext.parseRequest b = .ok r) ↔ s.httpContext.gotAll = false := by
  rcases hs.context with h | h
  · rw [h]
    exact iff_of_true (HttpContext.parseRequest_create_isOk b) rfl
  · have hstate : s.httpContext.state = .kGotAll := by simpa [HttpContext.gotAll] using h
    rw [HttpContext.parseRequest, HttpContext.parseLoop_of_gotAll hstate]
    simp [h]

theorem onGotAll_queued (conn : HttpConn) :
    (conn.onGotAll f).httpContext = conn.httpContext ∧
      conn.queued ≤ (conn.onGotAll f).queued ∧ (conn.onGotAll f).queued ≤ conn.queued + 1 := by
  unfold HttpConn.onGotAll
  split_ifs
  · simp [HttpConn.queued, HttpConn.call, HttpConn.countBadReq]
  · simp [HttpConn.queued, HttpConn.call]
  · simp [HttpConn.queued, HttpConn.countBadReq]

/-- A call that returns has parsed the buffer. It leaves a new context, or a complete request for
which at most one task is queued. -/
theorem onHttpMessage_ok {conn conn' : HttpConn} (h : conn.onHttpMessage f = .ok conn') :
    (∃ r, conn.httpContext.parseRequest conn.buf = .ok r) ∧
      (conn'.httpContext = .create ∧ conn'.queued = conn.queued ∨
        conn'.httpContext.gotAll = true ∧ conn.queued ≤ conn'.queued ∧
          conn'.queued ≤ conn.queued + 1) := by
  rcases hp : conn.httpContext.parseRequest conn.buf with e | ⟨ok, http, buf⟩
  · rw [HttpConn.onHttpMessage, hp] at h
    cases h
  · rw [HttpConn.onHttpMessage_eq_ok hp] at h
    cases h
    refine ⟨⟨_, rfl⟩, ?_⟩
    split_ifs with hall
    · obtain ⟨hcontext, hcount⟩ := onGotAll_queued (f := f)
        { conn with httpContext := http, buf := buf }
      exact .inr ⟨by rw [hcontext]; exact hall.2, hcount⟩
    · refine .inl ⟨rfl, ?_⟩
      simp [HttpConn.queued, HttpConn.onFailed, HttpConn.call, HttpConn.countBadReq]

theorem Inv.onHttpMessage (hs : s.Inv) {chunk : Bytes}
    (h : s.step f (.onHttpMessage chunk) = some s') : s'.Inv := by
  simp only [step] at h
  split at h
  · rename_i conn hconn
    cases h
    obtain ⟨hparse, hcases⟩ := onHttpMessage_ok hconn
    have hidle : s.queued = s.handled := hs.idle ((parseRequest_isOk_iff hs _).mp hparse)
    change _ ∧ _ = s.queued ∨ _ ∧ s.queued ≤ _ ∧ _ ≤ s.queued + 1 at hcases
    rw [hidle] at hcases
    obtain ⟨hnew, hcount⟩ | ⟨hall, hlow, hhigh⟩ := hcases
    · exact ⟨.inl hnew, hcount.ge, hcount.le.trans (Nat.le_succ _), fun _ => hcount⟩
    · refine ⟨.inr hall, hlow, hhigh, fun hnot => ?_⟩
      dsimp only at hnot
      rw [hall] at hnot
      cases hnot
  · cases h

theorem Inv.asyncHttpHandler (hs : s.Inv) {rsp : Bytes}
    (h : s.step f (.asyncHttpHandler rsp) = some s') : s'.Inv := by
  simp only [step, Serving.asyncHttpHandler] at h
  have hcount : (s.call [.send rsp]).queued = s.queued := by
    simp [HttpConn.queued, HttpConn.call]
  have htasks := hs.tasks
  split_ifs at h with hlt hentry hall
  · cases h
    -- the task was the only one, and it is done
    have hdone : (s.call [.send rsp]).queued = s.handled + 1 := by omega
    exact ⟨.inl rfl, hdone.ge, hdone.le.trans (Nat.le_succ _), fun _ => hdone⟩
  · cases h
    refine ⟨hs.context, ?_, ?_, fun hnot => ?_⟩
    · exact hlt
    · exact htasks.trans (Nat.le_succ _)
    · exact absurd (hs.idle hnot) (by omega)

theorem Inv.entryDtor (hs : s.Inv) (h : s.step f .entryDtor = some s') : s'.Inv := by
  simp only [step] at h
  split_ifs at h
  cases h
  have hcount : s.entryDtor.queued = s.queued := by
    unfold Serving.entryDtor
    split_ifs <;> simp [HttpConn.queued, HttpConn.call]
  refine ⟨hs.context, ?_, ?_, fun hnot => ?_⟩
  · rw [hcount]
    exact hs.handled
  · rw [hcount]
    exact hs.tasks
  · rw [hcount]
    exact hs.idle hnot

theorem Inv.step (hs : s.Inv) {a : ServingAction} (h : s.step f a = some s') : s'.Inv := by
  cases a with
  | onHttpMessage chunk => exact hs.onHttpMessage h
  | asyncHttpHandler rsp => exact hs.asyncHttpHandler h
  | entryDtor => exact hs.entryDtor h

theorem inv_of_reachable {n : ℕ} (h : Reachable (step f) (create n) s) : s.Inv :=
  h.invariant (inv_create n) fun hs hstep => hs.step hstep

/-- A worker never finds an incomplete request, so its assertion holds. -/
theorem gotAll_of_task {n : ℕ} (h : Reachable (step f) (create n) s)
    (htask : s.handled < s.queued) : s.httpContext.gotAll = true := by
  have hs := inv_of_reachable h
  by_contra hnot
  have hidle := hs.idle (by simpa using hnot)
  omega

/-- In every state that the two threads lead to, and for every buffer, `parseRequest` returns
exactly if the context has no complete request that is still to be reset. -/
theorem parseRequest_returns_iff {n : ℕ} (h : Reachable (step f) (create n) s) (b : Bytes) :
    (∃ r, s.httpContext.parseRequest b = .ok r) ↔ s.httpContext.gotAll = false :=
  parseRequest_isOk_iff (inv_of_reachable h) b

/-- A request that is answered before the next one arrives. -/
def answeredRun : List ServingAction :=
  [.onHttpMessage (ascii "GET / HTTP/1.1\r\n\r\n"), .asyncHttpHandler []]

theorem parseRequest_returns_answeredRun :
    ∃ s, run (step HttpConn.noFilter) (create 0) answeredRun = some s ∧
      ((∃ r, s.httpContext.parseRequest (ascii "GET") = .ok r) ↔ s.httpContext.gotAll = false) := by
  have hrun : ∃ s, run (step HttpConn.noFilter) (create 0) answeredRun = some s := ⟨_, rfl⟩
  obtain ⟨s, hrun⟩ := hrun
  exact ⟨s, hrun, parseRequest_returns_iff ⟨answeredRun, hrun⟩ (ascii "GET")⟩

/-- The entry times out, and a request that comes after it is complete but never reset. -/
def expiredRun : List ServingAction :=
  [.entryDtor, .onHttpMessage (ascii "GET / HTTP/1.1\r\n\r\n")]

/-- The next byte, and every other buffer, keeps the I/O thread for ever, with no task left that
could reset the context. A request that arrives before its predecessor is reset does the same. -/
theorem parseRequest_diverges :
    (∃ s, run (step HttpConn.noFilter) (create 0) expiredRun = some s ∧
        s.queued = s.handled ∧
        s.httpContext.parseRequest (s.buf ++ [71]) = .error .diverged) ∧
      ∃ s, run (step HttpConn.noFilter) (create 0) (answeredRun.take 1) = some s ∧
        s.httpContext.parseRequest (s.buf ++ [71]) = .error .diverged :=
  ⟨⟨_, rfl, rfl, rfl⟩, ⟨_, rfl, rfl⟩⟩

end Serving

end LibWebsocket.ApiServer
