import LibWebsocket.Tcp.CloseOnce

/-! Writes that should not harm a connection. `writeFull` reports the result of its last call,
and its callers look at `errno` although a successful call does not set it, so whether a healthy
write closes the connection depends on what an earlier call left there. -/
namespace LibWebsocket.Tcp
open Lib

theorem plainWrite_eq_close_iff {savedErrno : ℤ} {errno : ℕ} :
    (plainWrite savedErrno errno).1 = .close ↔
      (0 < savedErrno ∧ errno ∉ [0, EINPROGRESS, EAGAIN, EINTR]) ∨ savedErrno = 0 ∨
        (savedErrno < 0 ∧ errno ∉ [0, EAGAIN, EINTR]) := by
  simp only [plainWrite, plainReaction, errnoReaction]
  rcases lt_trichotomy savedErrno 0 with h | h | h
  · have hn : ¬ 0 < savedErrno := by omega
    have hz : savedErrno ≠ 0 := by omega
    simp only [hn, hz, h, if_false]
    split_ifs <;> simp_all
  · subst h
    simp
  · have hz : savedErrno ≠ 0 := by omega
    have hn : ¬ savedErrno < 0 := by omega
    simp only [hn, hz, h, if_true]
    split_ifs <;> simp_all

/-- The two functions that write, in `handleWrite` for any handshake. -/
inductive WriteOp
  | sendInLoop (data : Bytes)
  | handleWrite (h : Handshake)
deriving DecidableEq, Repr

namespace Conn
variable {c c' : Conn} {data : Bytes} {w : Writes} {n : ℕ}

def writeOp (c : Conn) (w : Writes) : WriteOp → Conn
  | .sendInLoop data => c.sendInLoop data w
  | .handleWrite h => c.handleWrite h w

/-- The bytes that are handed to `writeFull`, if it is called. -/
def toWrite (c : Conn) : WriteOp → Option Bytes
  | .sendInLoop data => if c.Direct then some data else none
  | .handleWrite _ => if c.channel.isWriting then some c.outputBuffer else none

/-- Positive counts, which leave `errno` alone, and at the end perhaps `-1` with `EAGAIN` or
`EINTR`. -/
def HealthyWrites (c : Conn) (data : Bytes) (w : Writes) : Prop :=
  ((c.written data.length w).1 = data.length → w.errno = c.errno) ∧
    ((c.written data.length w).1 ≠ data.length → w.stop = .failed ∧ w.errno ∈ [EAGAIN, EINTR])

/-- There is something to write, and it is not written to its end while `errno` still holds the
error of another call. -/
def HarmlessWrite (c : Conn) (data : Bytes) (w : Writes) : Prop :=
  data ≠ [] ∧ ((c.written data.length w).1 < data.length ∨
    c.errno ∈ [0, EINPROGRESS, EAGAIN, EINTR])

instance : Decidable (c.HealthyWrites data w) := inferInstanceAs (Decidable (_ ∧ _))

instance : Decidable (c.HarmlessWrite data w) := inferInstanceAs (Decidable (_ ∧ _))

theorem written_plain (hssl : c.ssl = false) :
    c.written n w = writeFull w.stop w.counts n 0 := by
  rw [written, hssl, if_neg Bool.false_ne_true]

theorem transmit_errno (hd : data ≠ []) : (c.transmit data w).errno = w.errno := by
  rw [transmit, if_neg hd, setErrno]

theorem directReaction_plain (hssl : c.ssl = false) : c.directReaction data w =
    plainWrite (writeFull w.stop w.counts data.length 0).2 (c.transmit data w).errno := by
  have hs : (c.transmit data w).ssl = false := transmit_apart.ssl.trans hssl
  rw [directReaction, writeReaction, hs, if_neg Bool.false_ne_true, written_plain hssl]

/-- A healthy write makes the code go on exactly if it is harmless. -/
theorem directReaction_ne_close_iff (hssl : c.ssl = false) (hw : c.HealthyWrites data w) :
    (c.directReaction data w).1 ≠ .close ↔ c.HarmlessWrite data w := by
  unfold HealthyWrites at hw
  rw [directReaction_plain hssl, ne_eq, plainWrite_eq_close_iff, HarmlessWrite]
  rw [written_plain hssl] at hw ⊢
  by_cases hd : data = []
  · subst hd
    simp [writeFull]
  have hpos : 0 < data.length := List.length_pos_iff.mpr hd
  rw [transmit_errno hd]
  by_cases hall : (writeFull w.stop w.counts data.length 0).1 = data.length
  · have hsaved := writeFull_pos hall (Or.inl hpos)
    simp only [hw.1 hall, hd, hall, hsaved, hsaved.ne', hsaved.le.not_gt, lt_irrefl, true_and,
      false_and, false_or, or_false, not_not, not_false_eq_true, ne_eq]
  · have hlt := writeFull_le.lt_of_ne hall
    have hsaved : (writeFull w.stop w.counts data.length 0).2 = -1 := by
      rw [writeFull_of_lt hlt, (hw.2 hall).1, Stop.rc]
    have hagain : w.errno = EAGAIN ∨ w.errno = EINTR := by simpa using (hw.2 hall).2
    simp [hd, hlt, hsaved, hagain]

theorem retrieveOutput_writeReaction {savedErrno : ℤ} :
    (c.retrieveOutput n).writeReaction savedErrno = c.writeReaction savedErrno := by
  have herrno : (c.retrieveOutput n).errno = c.errno := by
    simp only [retrieveOutput, outputSent, shutdownInLoop, queueWriteComplete, log]
    split_ifs <;> rfl
  have hssl : (c.retrieveOutput n).ssl = c.ssl :=
    (retrieveOutput_frame (P := fun _ => True) (fun _ => trivial) trivial).ssl
  rw [writeReaction, hssl, herrno, writeReaction]

/-- `handleWrite` closes for the same results as a direct write. -/
theorem flush_frame (hr : (c.directReaction c.outputBuffer w).1 ≠ .close) :
    Frame Apart c (c.flush w) := by
  dsimp only [flush]
  rw [retrieveOutput_writeReaction]
  apply Frame.trans _ (react_frame hr)
  exact (transmit_apart.trans (retrieveOutput_frame (fun _ => rfl) rfl)).trans .setErrno

theorem flush_state (hr : (c.directReaction c.outputBuffer w).1 = .close) :
    (c.flush w).state = .kDisconnected := by
  dsimp only [flush]
  rw [retrieveOutput_writeReaction]
  rw [directReaction] at hr
  rw [hr, react, handleClose]

/-- Either the code closes, or it keeps the frame. -/
theorem unharmed_iff {r : Reaction} (hstate : c.state = .kConnected)
    (hclose : r = .close → c'.state = .kDisconnected) (hopen : r ≠ .close → Frame Apart c c') :
    (c'.state = .kConnected ∧ c'.closeLog = c.closeLog) ↔ r ≠ .close := by
  constructor
  · rintro ⟨hconn, -⟩ hr
    simp [hclose hr] at hconn
  · intro hr
    exact ⟨(hopen hr).state.trans hstate, closeLog_frame (hopen hr)⟩

theorem sendInLoop_unharmed_iff (hstate : c.state = .kConnected) (hd : c.Direct) :
    ((c.sendInLoop data w).state = .kConnected ∧ (c.sendInLoop data w).closeLog = c.closeLog) ↔
      (c.directReaction data w).1 ≠ .close := by
  obtain ⟨c₁, hf, he⟩ : ∃ c₁, Frame Apart c c₁ ∧ c.directWrite data w = _ := directWrite_apart
  have happend : Frame Apart (c.directWrite data w) (c.sendInLoop data w) := by
    rw [sendInLoop, if_neg (by simp [hstate]), if_pos hd]
    exact appendOutput_frame fun _ => rfl
  apply unharmed_iff hstate
  · intro hr
    rw [happend.state, he, if_pos hr, handleClose]
  · intro hr
    rw [he, if_neg hr] at happend
    exact hf.trans happend

/-- On a plain connection a healthy write leaves the connection open exactly if nothing is
written or the write is harmless. -/
theorem writeOp_unharmed_iff {op : WriteOp} (hplain : c.sslCtx = false ∧ c.ssl = false)
    (hstate : c.state = .kConnected)
    (hw : ∀ bytes, c.toWrite op = some bytes → c.HealthyWrites bytes w) :
    ((c.writeOp w op).state = .kConnected ∧ (c.writeOp w op).closeLog = c.closeLog) ↔
      ∀ bytes, c.toWrite op = some bytes → c.HarmlessWrite bytes w := by
  cases op with
  | sendInLoop data =>
    by_cases hd : c.Direct
    · simp only [toWrite, if_pos hd, Option.some.injEq, forall_eq'] at hw ⊢
      rw [← directReaction_ne_close_iff hplain.2 hw]
      exact sendInLoop_unharmed_iff hstate hd
    · simp only [toWrite, if_neg hd, reduceCtorEq, false_imp_iff, implies_true, iff_true, writeOp]
      rw [sendInLoop, if_neg (by simp [hstate]), if_neg hd]
      have hf : Frame Apart c (c.appendOutput data) := appendOutput_frame fun _ => rfl
      exact ⟨hf.state.trans hstate, closeLog_frame hf⟩
  | handleWrite h =>
    have hh : ¬ c.Handshaking := fun hh => by simp [hplain.1, Handshaking] at hh
    by_cases hd : c.channel.isWriting = true
    · simp only [toWrite, if_pos hd, Option.some.injEq, forall_eq', writeOp] at hw ⊢
      rw [← directReaction_ne_close_iff hplain.2 hw, handleWrite, if_neg hh, if_pos hd]
      exact unharmed_iff hstate flush_state flush_frame
    · simp only [toWrite, if_neg hd, reduceCtorEq, false_imp_iff, implies_true, iff_true, writeOp]
      rw [handleWrite, if_neg hh, if_neg hd]
      exact ⟨hstate, rfl⟩

/-- One byte is written while `errno` still holds `EAGAIN`. -/
theorem writeOp_unharmed_again :
    ((create false true true false 67108864 EAGAIN).established.writeOp ⟨[0], .failed, 0, EAGAIN, 0⟩
      (.sendInLoop [1])).state = .kConnected := by
  have hw : ∀ bytes, (create false true true false 67108864 EAGAIN).established.toWrite
      (.sendInLoop [1]) = some bytes → bytes = [1] := by
    intro bytes h
    exact (Option.some.inj h).symm
  refine ((writeOp_unharmed_iff ⟨rfl, rfl⟩ rfl ?_).mpr ?_).1 <;>
  · intro bytes h
    rw [hw bytes h]
    decide

/-- A `send` of no data closes the connection, and so does one of a byte that is written at once
while `errno` holds 2, `ENOENT`, from an earlier call. -/
theorem sendInLoop_closes :
    ((create false true true false 67108864 0).established.HealthyWrites [] ⟨[], .failed, 0, 0, 0⟩ ∧
      ((create false true true false 67108864 0).established.writeOp ⟨[], .failed, 0, 0, 0⟩
        (.sendInLoop [])).state = .kDisconnected) ∧
    (create false true true false 67108864 2).established.HealthyWrites [1] ⟨[0], .failed, 0, 2, 0⟩ ∧
      ((create false true true false 67108864 2).established.writeOp ⟨[0], .failed, 0, 2, 0⟩
        (.sendInLoop [1])).state = .kDisconnected := by
  decide

end Conn

end LibWebsocket.Tcp
