import LibWebsocket.Lib.ByteOrder
import Mathlib.Tactic.Common

/-! What a connection asks of the kernel and of the SSL library: the interest set of its channel,
the loops that write and read until a call accepts nothing, and what the handlers make of the
results. System calls are inputs; the loops consume them as the code does. -/
namespace LibWebsocket.Tcp
open Lib

/-- The bits of `events_`: `POLLIN | POLLPRI`, which are only ever set and cleared together,
`POLLOUT` and `EPOLLET`. -/
structure Channel where
  isReading : Bool
  isWriting : Bool
  et : Bool
deriving DecidableEq, Repr

namespace Channel

/-- `kNoneEvent`. -/
def none : Channel := ⟨false, false, false⟩

def enableReading (et : Bool) (ch : Channel) : Channel :=
  { ch with isReading := true, et := ch.et || et }

def disableReading (et : Bool) (ch : Channel) : Channel :=
  { ch with isReading := false, et := ch.et && !et }

def enableWriting (et : Bool) (ch : Channel) : Channel :=
  { ch with isWriting := true, et := ch.et || et }

-- The mask of the edge-triggered mode also takes `EPOLLET` away.
def disableWriting (et : Bool) (ch : Channel) : Channel :=
  { ch with isWriting := false, et := ch.et && !et }

/-- The query assigns `events_ &= ~kReadEvent` and answers whether a bit is left. -/
def isETReading (ch : Channel) : Bool × Channel :=
  (ch.isWriting || ch.et, { ch with isReading := false })

end Channel

/-! ## Results of system calls -/

def EINTR : ℕ := 4
def EAGAIN : ℕ := 11
def EPIPE : ℕ := 32
def ECONNRESET : ℕ := 104
def EINPROGRESS : ℕ := 115

def SSL_ERROR_WANT_READ : ℤ := 2
def SSL_ERROR_WANT_WRITE : ℤ := 3
def SSL_ERROR_ZERO_RETURN : ℤ := 6
def SSL_ERROR_WANT_CONNECT : ℤ := 7
def SSL_ERROR_WANT_ACCEPT : ℤ := 8

/-- A call that transfers nothing returns `0` or `-1`. -/
inductive Stop
  | zero
  | failed
deriving DecidableEq, Repr

def Stop.rc : Stop → ℤ
  | zero => 0
  | failed => -1

/-- How the calls of one `writeFull` or `SSL_write` end. Call number `i` takes `counts[i] + 1`
bytes, or all that are left; the first call behind them takes nothing and returns `stop`, for
which `SSL_get_error` gives `sslError`. `errno` is its value behind the calls, and `afterClose`
its value behind the callbacks of `handleClose` if the results make the caller close. -/
structure Writes where
  counts : List ℕ
  stop : Stop
  sslError : ℤ
  errno : ℕ
  afterClose : ℕ
deriving DecidableEq, Repr

/-- What one `readFull` or `SSL_read` reads, and how it ends; `sslError = 0` is the end of
`SSL_read` with nothing pending. -/
structure Reads where
  data : Bytes
  stop : Stop
  sslError : ℤ
  errno : ℕ
  afterClose : ℕ
deriving DecidableEq, Repr

/-- The loop of `IBytesBuffer::writeFull` on the length that is left and `*savedErrno`: the bytes
accepted and the last result, which stays as it was if there was nothing to write. -/
def writeFull (stop : Stop) : List ℕ → ℕ → ℤ → ℕ × ℤ
  | _, 0, savedErrno => (0, savedErrno)
  | [], _ + 1, _ => (0, stop.rc)
  | k :: counts, left + 1, _ =>
    let rc := min (k + 1) (left + 1)
    let r := writeFull stop counts (left + 1 - rc) rc
    (rc + r.1, r.2)

/-- The loop of `ssl::SSL_write`, which reports an error code only. -/
def sslWrite (sslError : ℤ) : List ℕ → ℕ → ℕ × ℤ
  | _, 0 => (0, 0)
  | [], _ + 1 => (0, sslError)
  | k :: counts, left + 1 =>
    let rc := min (k + 1) (left + 1)
    let r := sslWrite sslError counts (left + 1 - rc)
    (rc + r.1, r.2)

/-- What a successful or failed `SSL_handshake` finds. `newFailed` is `SSL_new` or `SSL_set_fd`
failing, which can only be met without an SSL object. -/
inductive Handshake
  | newFailed
  | done
  | error (code : ℤ)
deriving DecidableEq, Repr

/-- `SSL_handshake`: whether it succeeded, whether there is an SSL object behind it, and
`saveErrno`. Some errors free the object. -/
def sslHandshake (ssl : Bool) : Handshake → Bool × Bool × ℤ
  | .newFailed => (false, ssl, 0)
  | .done => (true, true, 0)
  | .error code =>
    (false, code ∈ [SSL_ERROR_WANT_READ, SSL_ERROR_WANT_WRITE, SSL_ERROR_ZERO_RETURN,
      SSL_ERROR_WANT_CONNECT, SSL_ERROR_WANT_ACCEPT], code)

/-! ## What the handlers make of the results -/

/-- The branches of the switches over `errno` and `savedErrno`. -/
inductive Reaction
  | ignore
  | wantRead
  | wantWrite
  | rearm
  | close
deriving DecidableEq, Repr

/-- `switch (errno)`; the errors of `again` are reset. -/
def errnoReaction (again : List ℕ) (want : Reaction) (errno : ℕ) : Reaction × ℕ :=
  if errno ∈ again then (want, 0) else if errno = 0 then (.ignore, 0) else (.close, errno)

/-- The branches over `savedErrno` without SSL, where it is the result of the last call. -/
def plainReaction (again₁ again₂ : List ℕ) (want : Reaction) (savedErrno : ℤ) (errno : ℕ) :
    Reaction × ℕ :=
  if 0 < savedErrno then errnoReaction again₁ want errno
  else if savedErrno = 0 then (.close, errno)
  else errnoReaction again₂ want errno

def plainRead : ℤ → ℕ → Reaction × ℕ :=
  plainReaction [EAGAIN, EINTR] [EAGAIN, EINTR] .wantRead

def plainWrite : ℤ → ℕ → Reaction × ℕ :=
  plainReaction [EINPROGRESS, EAGAIN, EINTR] [EAGAIN, EINTR] .wantWrite

def sslReadReaction (savedErrno : ℤ) : Reaction :=
  if savedErrno = SSL_ERROR_WANT_READ then .wantRead
  else if savedErrno = SSL_ERROR_WANT_WRITE then .wantWrite
  else if savedErrno = 0 then .rearm
  else .close

def sslWriteReaction (savedErrno : ℤ) : Reaction :=
  if savedErrno = SSL_ERROR_WANT_WRITE then .wantWrite
  else if savedErrno = 0 then .ignore
  else .close

def handshakeReaction (savedErrno : ℤ) : Reaction :=
  if savedErrno = SSL_ERROR_WANT_READ then .wantRead
  else if savedErrno = SSL_ERROR_WANT_WRITE then .wantWrite
  else if savedErrno = 0 then .ignore
  else .close

/-! ## The write loops -/

section Loops
variable {stop : Stop} {sslError savedErrno : ℤ} {counts : List ℕ} {left : ℕ}

theorem writeFull_le : (writeFull stop counts left savedErrno).1 ≤ left := by
  fun_induction writeFull stop counts left savedErrno with
  | case1 => exact Nat.le_refl 0
  | case2 => exact Nat.zero_le _
  | case3 k counts left _ rc r ih =>
    have hr : r.1 ≤ left + 1 - rc := ih
    omega

/-- A loop that is cut short reports the call that took nothing. -/
theorem writeFull_of_lt (h : (writeFull stop counts left savedErrno).1 < left) :
    (writeFull stop counts left savedErrno).2 = stop.rc := by
  fun_induction writeFull stop counts left savedErrno with
  | case1 => exact absurd h (Nat.lt_irrefl 0)
  | case2 => rfl
  | case3 k counts left _ rc r ih =>
    have hr : r.1 < left + 1 - rc := by omega
    exact ih hr

/-- A loop that ran to the end reports the positive result of its last call. -/
theorem writeFull_pos (h : (writeFull stop counts left savedErrno).1 = left)
    (hpos : 0 < left ∨ 0 < savedErrno) : 0 < (writeFull stop counts left savedErrno).2 := by
  fun_induction writeFull stop counts left savedErrno with
  | case1 => exact hpos.resolve_left (Nat.lt_irrefl 0)
  | case2 => exact absurd h (Nat.succ_ne_zero _).symm
  | case3 k counts left _ rc r ih =>
    have hr : r.1 = left + 1 - rc := by omega
    exact ih hr (Or.inr (by omega))

theorem sslWrite_savedErrno : (sslWrite sslError counts left).2 =
    if (sslWrite sslError counts left).1 = left then 0 else sslError := by
  fun_induction sslWrite sslError counts left with
  | case1 => rfl
  | case2 => rfl
  | case3 k counts left rc r ih =>
    have hr : r.1 = left + 1 - rc ↔ rc + r.1 = left + 1 := by omega
    have hi : r.2 = if r.1 = left + 1 - rc then 0 else sslError := ih
    exact hi.trans (if_congr hr rfl rfl)

end Loops

end LibWebsocket.Tcp
