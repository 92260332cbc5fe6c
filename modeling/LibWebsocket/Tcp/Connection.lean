import LibWebsocket.Lib.Run
import LibWebsocket.Tcp.Io

/-! `TcpConnection`. The assertions of this class are compiled out, so its functions go on behind
a failed one; `handleClose` records the state it was entered in. User callbacks that run inside a
handler are lists of calls on the connection, those that are queued are recorded only. -/
namespace LibWebsocket.Tcp
open Lib

inductive StateE
  | kDisconnected
  | kConnecting
  | kConnected
  | kDisconnecting
deriving DecidableEq, Repr

/-- What is handed to `QueueInLoop`. -/
inductive Queued
  | writeCompleteCallback
  | highWaterMarkCallback (len : ℕ)
  | forceCloseInLoop
deriving DecidableEq, Repr

/-- What a connection does to the outside. The writes name the bytes handed over and how many of
them were accepted, and `sslWrite` whether the handshake had succeeded by then. -/
inductive Event
  | write (data : Bytes) (n : ℕ)
  | sslWrite (sslConnected : Bool) (data : Bytes) (n : ℕ)
  | handleClose (state : StateE) (outputBuffer : Bytes)
  | connectionCallback
  | closeCallback
  | shutdownWrite (outputBuffer : Bytes)
  | queued (f : Queued)
deriving DecidableEq, Repr

/-- `sslCtx` and `ssl` tell whether the pointers are set, `writeCompleteCallback` and
`highWaterMarkCallback` whether the callbacks are. -/
structure Conn where
  state : StateE
  reading : Bool
  channel : Channel
  sslCtx : Bool
  ssl : Bool
  sslConnected : Bool
  enableEt : Bool
  highWaterMark : ℕ
  writeCompleteCallback : Bool
  highWaterMarkCallback : Bool
  inputBuffer : Bytes
  outputBuffer : Bytes
  errno : ℕ
  trace : List Event
deriving DecidableEq, Repr

/-- A call of user code on the connection, from the thread of its loop. -/
inductive Call
  | send (message : Bytes) (w : Writes)
  | shutdown
  | forceClose
  | startRead
  | stopRead
  | retrieve (n : ℕ)
  | setErrno (errno : ℕ)
deriving DecidableEq, Repr

namespace Conn

/-- The constructor. -/
def create (sslCtx enableEt writeCompleteCallback highWaterMarkCallback : Bool)
    (highWaterMark errno : ℕ) : Conn where
  state := .kConnecting
  reading := true
  channel := .none
  sslCtx := sslCtx
  ssl := false
  sslConnected := false
  enableEt := enableEt
  highWaterMark := highWaterMark
  writeCompleteCallback := writeCompleteCallback
  highWaterMarkCallback := highWaterMarkCallback
  inputBuffer := []
  outputBuffer := []
  errno := errno
  trace := []

def log (c : Conn) (e : Event) : Conn := { c with trace := c.trace ++ [e] }

def setErrno (c : Conn) (errno : ℕ) : Conn := { c with errno := errno }

def enableReading (c : Conn) : Conn := { c with channel := c.channel.enableReading c.enableEt }

def enableWriting (c : Conn) : Conn := { c with channel := c.channel.enableWriting c.enableEt }

def disableWriting (c : Conn) : Conn := { c with channel := c.channel.disableWriting c.enableEt }

/-- User code in the callbacks of a close finds `kDisconnected`, where `send`, `shutdown` and
`forceClose` do nothing; it may leave any value in `errno`. -/
def handleClose (c : Conn) (errno : ℕ) : Conn :=
  { c with
    ssl := false
    state := .kDisconnected
    channel := .none
    errno := errno
    trace := c.trace ++
      [.handleClose c.state c.outputBuffer, .connectionCallback, .closeCallback] }

/-- The actions of the switches in `handleRead` and `handleWrite`. -/
def react (c : Conn) (errno : ℕ) : Reaction → Conn
  | .ignore => c
  | .wantRead => c.enableReading
  | .wantWrite => c.enableWriting
  | .rearm =>
    let c₁ := { c with channel := c.channel.isETReading.2 }
    if c.channel.isETReading.1 then c₁.enableReading else c₁
  | .close => c.handleClose errno

/-! ## Writing -/

/-- The result of `writeFull` or `SSL_write` on `len` bytes, with `savedErrno`. -/
def written (c : Conn) (len : ℕ) (w : Writes) : ℕ × ℤ :=
  if c.ssl then Tcp.sslWrite w.sslError w.counts len else writeFull w.stop w.counts len 0

/-- The connection behind that. Without data there is no call, and `errno` stays. -/
def transmit (c : Conn) (data : Bytes) (w : Writes) : Conn :=
  if data = [] then c
  else
    let n := (c.written data.length w).1
    (c.log (if c.ssl then .sslWrite c.sslConnected data n else .write data n)).setErrno w.errno

/-- The branches behind a write, with the value they leave in `errno`. -/
def writeReaction (c : Conn) (savedErrno : ℤ) : Reaction × ℕ :=
  if c.ssl then (sslWriteReaction savedErrno, c.errno) else plainWrite savedErrno c.errno

/-- `sendInLoop` writes at once if nothing is waiting to be written. -/
def Direct (c : Conn) : Prop := c.channel.isWriting = false ∧ c.outputBuffer = []

instance (c : Conn) : Decidable c.Direct := inferInstanceAs (Decidable (_ ∧ _))

def directReaction (c : Conn) (data : Bytes) (w : Writes) : Reaction × ℕ :=
  (c.transmit data w).writeReaction (c.written data.length w).2

def queueWriteComplete (c : Conn) : Conn :=
  if c.writeCompleteCallback then c.log (.queued .writeCompleteCallback) else c

/-- `sendInLoop` up to the switches behind its direct write. -/
def directWritten (c : Conn) (data : Bytes) (w : Writes) : Conn :=
  let remaining := data.length - (c.written data.length w).1
  if remaining = 0 then (c.transmit data w).queueWriteComplete else c.transmit data w

/-- The direct write of `sendInLoop` with the switches behind it. -/
def directWrite (c : Conn) (data : Bytes) (w : Writes) : Conn :=
  let r := c.directReaction data w
  if r.1 = .close then (c.directWritten data w).handleClose w.afterClose
  else (c.directWritten data w).setErrno r.2

/-- What `sendInLoop` takes from `data` for the output buffer behind a direct write. Without SSL
`nwrote` has been set to 0 by then, and `EPIPE` and `ECONNRESET` are a `faultError`. -/
def leftover (c : Conn) (data : Bytes) (w : Writes) : Bytes :=
  let n := (c.written data.length w).1
  if c.ssl then data.drop n
  else if (c.directWrite data w).errno ∈ [EPIPE, ECONNRESET] then []
  else data.take (data.length - n)

def checkHighWaterMark (c : Conn) (remaining : ℕ) : Conn :=
  let oldLen := c.outputBuffer.length
  if c.highWaterMark ≤ oldLen + remaining ∧ oldLen < c.highWaterMark ∧ c.highWaterMarkCallback then
    c.log (.queued (.highWaterMarkCallback (oldLen + remaining)))
  else c

/-- The end of `sendInLoop`; `remaining > 0` if there are bytes. -/
def appendOutput (c : Conn) (bytes : Bytes) : Conn :=
  if bytes = [] then c
  else
    { c.checkHighWaterMark bytes.length with
      outputBuffer := c.outputBuffer ++ bytes
      channel := if c.channel.isWriting then c.channel else c.channel.enableWriting c.enableEt }

def sendInLoop (c : Conn) (data : Bytes) (w : Writes) : Conn :=
  if c.state = .kDisconnected then c
  else if c.Direct then (c.directWrite data w).appendOutput (c.leftover data w)
  else c.appendOutput data

/-! ## Closing, and calls of user code -/

def shutdownInLoop (c : Conn) : Conn :=
  if c.channel.isWriting then c else c.log (.shutdownWrite c.outputBuffer)

def forceCloseInLoop (c : Conn) (errno : ℕ) : Conn :=
  if c.state = .kConnected ∨ c.state = .kDisconnecting then c.handleClose errno else c

def startReadInLoop (c : Conn) : Conn :=
  if ¬ c.reading ∨ ¬ c.channel.isReading then { c.enableReading with reading := true } else c

def stopReadInLoop (c : Conn) : Conn :=
  if c.reading ∨ c.channel.isReading then
    { c with channel := c.channel.disableReading c.enableEt, reading := false }
  else c

def call (c : Conn) : Call → Conn
  | .send message w => if c.state = .kConnected then c.sendInLoop message w else c
  | .shutdown =>
    if c.state = .kConnected then shutdownInLoop { c with state := .kDisconnecting } else c
  | .forceClose =>
    if c.state = .kConnected ∨ c.state = .kDisconnecting then
      log { c with state := .kDisconnecting } (.queued .forceCloseInLoop)
    else c
  | .startRead => c.startReadInLoop
  | .stopRead => c.stopReadInLoop
  | .retrieve n => { c with inputBuffer := c.inputBuffer.drop n }
  | .setErrno errno => c.setErrno errno

def calls (c : Conn) (ks : List Call) : Conn := ks.foldl call c

/-! ## Handlers -/

/-- The connection as `connectionCallback_` of `connectEstablished` finds it. -/
def established (c : Conn) : Conn :=
  (enableReading { c with state := .kConnected }).log .connectionCallback

def connectEstablished (c : Conn) (ks : List Call) : Conn := c.established.calls ks

/-- The handlers are to go on with the handshake. -/
def Handshaking (c : Conn) : Prop := c.sslCtx = true ∧ c.sslConnected = false

instance (c : Conn) : Decidable c.Handshaking := inferInstanceAs (Decidable (_ ∧ _))

def handshake (c : Conn) (h : Handshake) (errno : ℕ) : Conn :=
  let r := sslHandshake c.ssl h
  react { c with sslConnected := r.1, ssl := r.2.1 } errno (handshakeReaction r.2.2)

/-- The connection as `messageCallback_` finds it. -/
def received (c : Conn) (r : Reads) : Conn :=
  { c with
    inputBuffer := c.inputBuffer ++ r.data
    errno := if r.data ≠ [] ∧ r.errno ∈ [EAGAIN, EINTR] then 0 else r.errno }

/-- `handleRead` up to the switches over its own result. -/
def readMessage (c : Conn) (r : Reads) (ks : List Call) : Conn :=
  if r.data = [] then c.received r else (c.received r).calls ks

/-- The branches behind a read. They look at `ssl_` again, which the callback may have freed,
while `savedErrno` still is of the kind that was read with. -/
def readReaction (c : Conn) (savedErrno : ℤ) : Reaction × ℕ :=
  if c.ssl then (sslReadReaction savedErrno, c.errno) else plainRead savedErrno c.errno

def savedErrno (c : Conn) (r : Reads) : ℤ := if c.ssl then r.sslError else r.stop.rc

def handleRead (c : Conn) (h : Handshake) (r : Reads) (ks : List Call) : Conn :=
  if c.Handshaking then c.handshake h r.afterClose
  else
    let c₁ := c.readMessage r ks
    let reaction := c₁.readReaction (c.savedErrno r)
    (c₁.setErrno reaction.2).react r.afterClose reaction.1

/-- `handleWrite` with the output buffer written to its end. -/
def outputSent (c : Conn) : Conn :=
  let c₁ := c.disableWriting.queueWriteComplete
  if c.state = .kDisconnecting then c₁.shutdownInLoop else c₁

/-- `handleWrite` behind a write that took `n` bytes. -/
def retrieveOutput (c : Conn) (n : ℕ) : Conn :=
  let c₁ := { c with outputBuffer := c.outputBuffer.drop n }
  if n = 0 ∨ c₁.outputBuffer ≠ [] then c₁ else c₁.outputSent

/-- `handleWrite` with the handshake behind it. -/
def flush (c : Conn) (w : Writes) : Conn :=
  let r := c.written c.outputBuffer.length w
  let c₁ := (c.transmit c.outputBuffer w).retrieveOutput r.1
  let reaction := c₁.writeReaction r.2
  (c₁.setErrno reaction.2).react w.afterClose reaction.1

def handleWrite (c : Conn) (h : Handshake) (w : Writes) : Conn :=
  if c.Handshaking then c.handshake h w.afterClose
  else if c.channel.isWriting then c.flush w
  else c

end Conn

/-! ## Runs -/

/-- What the loop runs: handlers of the channel, queued functions, and user code. -/
inductive Action
  | connectEstablished (ks : List Call)
  | handleRead (h : Handshake) (r : Reads) (ks : List Call)
  | handleWrite (h : Handshake) (w : Writes)
  | handleClose (errno : ℕ)
  | sendInLoop (data : Bytes) (w : Writes)
  | forceCloseInLoop (errno : ℕ)
  | user (k : Call)
deriving DecidableEq, Repr

namespace Conn

def perform (c : Conn) : Action → Conn
  | .connectEstablished ks => c.connectEstablished ks
  | .handleRead h r ks => c.handleRead h r ks
  | .handleWrite h w => c.handleWrite h w
  | .handleClose errno => c.handleClose errno
  | .sendInLoop data w => c.sendInLoop data w
  | .forceCloseInLoop errno => c.forceCloseInLoop errno
  | .user k => c.call k

/-- The server calls `connectEstablished` once, before the loop knows the connection. -/
def step (c : Conn) : Action → Option Conn
  | .connectEstablished ks =>
    if c.state = .kConnecting then some (c.connectEstablished ks) else none
  | a => if c.state = .kConnecting then none else some (c.perform a)

theorem step_eq_some {c c' : Conn} {a : Action} (h : c.step a = some c') :
    (c.state = .kConnecting ∧ ∃ ks, a = .connectEstablished ks ∧ c' = c.connectEstablished ks) ∨
      (c.state ≠ .kConnecting ∧ (∀ ks, a ≠ .connectEstablished ks) ∧ c' = c.perform a) := by
  unfold step at h
  split at h <;> split_ifs at h with hs <;> cases h
  · exact Or.inl ⟨hs, _, rfl, rfl⟩
  · rename_i hne
    exact Or.inr ⟨hs, fun ks => hne ks, rfl⟩

end Conn

end LibWebsocket.Tcp
