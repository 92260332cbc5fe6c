import LibWebsocket.Lib.Numeral
import LibWebsocket.Tcp.CloseOnce
import Mathlib.Logic.Function.Basic

/-! `TcpServer`, with the loops that its connections live in. A loop calls the functors that it is
handed in the order in which they come; which loop goes on is open. -/
namespace LibWebsocket.Tcp
open Lib

/-- What a loop is handed for a connection. -/
inductive Handed
  | connectEstablished (id : ℕ)
  | removeConnectionInLoop (id : ℕ)
  | connectDestroyed (id : ℕ)
deriving DecidableEq, Repr

def Handed.id : Handed → ℕ
  | .connectEstablished id | .removeConnectionInLoop id | .connectDestroyed id => id

/-- The connection as `connectionCallback_` of `connectDestroyed` finds it. -/
def Conn.destroyed (c : Conn) : Conn :=
  log { c with state := .kDisconnected, channel := .none } .connectionCallback

def Conn.connectDestroyed (c : Conn) (ks : List Call) : Conn :=
  if c.state = .kConnected then c.destroyed.calls ks else c

/-- The handlers that a poller calls. -/
def Action.polled : Action → Bool
  | .handleRead _ _ _ | .handleWrite _ _ | .handleClose _ => true
  | _ => false

/-- What user code does in a callback, and not a loop by itself. -/
def Action.isUser : Action → Bool
  | .user _ => true
  | _ => false

/-- A connection with the number of its loop. The loop of the server has the number 0, those of the
pool follow. -/
structure Session where
  name : Bytes
  loop : ℕ
  conn : Conn
  /-- The channel has been removed from the poller. -/
  removed : Bool
deriving DecidableEq, Repr

/-- The server is there, the thread of the loop `here` is in its destructor, or that has returned. -/
inductive Life
  | up
  | destructing (here : ℕ)
  | destructed
deriving DecidableEq, Repr

structure Server where
  name : Bytes
  ipPort : Bytes
  sslCtx : Bool
  enableEt : Bool
  writeCompleteCallback : Bool
  /-- The length of `loops_`, and `next_`. -/
  loops : ℕ
  next : ℕ
  nextConnId : ℕ
  /-- All connections there have been. -/
  sessions : List Session
  connections : List (Bytes × ℕ)
  queue : ℕ → List Handed
  /-- What has been called. -/
  ran : List Handed
  /-- `removeConnectionInLoop` has always erased one connection. -/
  erased : Bool
  life : Life
  /-- A member has been called in the destructor or behind it. -/
  dangling : Bool

/-- What can happen: `accept` has brought a connection, a loop calls what is next, a handler or a
function of a connection runs in its loop, another server or client takes the next loop, and the
destructor is called from the thread of a loop (or, if there is no loop of that number, another
thread), takes the next connection and returns. `ks` is what the connection callback does with its
connection when that comes up or goes down; what it does with others are steps of their own. -/
inductive ServerStep
  | newConnection (errno : ℕ) (ks : List Call)
  | turn (l : ℕ) (ks : List Call)
  | act (id : ℕ) (a : Action)
  | getNextLoop
  | destruct (here : ℕ)
  | destroy (id : ℕ) (ks : List Call)
  | destructed
deriving DecidableEq, Repr

namespace Server

def create (name ipPort : Bytes) (sslCtx enableEt writeCompleteCallback : Bool) (loops : ℕ) :
    Server where
  name := name
  ipPort := ipPort
  sslCtx := sslCtx
  enableEt := enableEt
  writeCompleteCallback := writeCompleteCallback
  loops := loops
  next := 0
  nextConnId := 1
  sessions := []
  connections := []
  queue := fun _ => []
  ran := []
  erased := true
  life := .up
  dangling := false

def alive (s : Server) : Bool := s.life = .up

/-- `snprintf` into 64 bytes, behind the name of the server. -/
def connName (s : Server) (id : ℕ) : Bytes :=
  s.name ++ (45 :: s.ipPort ++ 35 :: numeral decimalDigit 10 id).take 63

def getNextLoop (s : Server) : ℕ × Server :=
  if s.loops = 0 then (0, s)
  else (s.next + 1, { s with next := if s.loops ≤ s.next + 1 then 0 else s.next + 1 })

def setQueue (s : Server) (l : ℕ) (ps : List Handed) : Server :=
  { s with queue := Function.update s.queue l ps }

def queueInLoop (s : Server) (l : ℕ) (p : Handed) : Server := s.setQueue l (s.queue l ++ [p])

def log (s : Server) (p : Handed) : Server := { s with ran := s.ran ++ [p] }

def setSession (s : Server) (id : ℕ) (e : Session) : Server :=
  { s with sessions := s.sessions.set id e }

/-- `erase`, and the assertion behind it. -/
def erase (s : Server) (name : Bytes) : Server :=
  { s with
    connections := s.connections.filter (·.1 ≠ name)
    erased := s.erased && s.connections.any (·.1 = name) }

def removeConnectionInLoop (s : Server) (id : ℕ) (e : Session) : Server :=
  ((s.log (.removeConnectionInLoop id)).erase e.name).queueInLoop e.loop (.connectDestroyed id)

/-- `closeCallback_` of a connection, which is called in the loop of the connection. -/
def removeConnection (s : Server) (id : ℕ) (e : Session) : Server :=
  if ¬ s.alive then { s with dangling := true }
  else if e.loop = 0 then s.removeConnectionInLoop id e
  else s.queueInLoop 0 (.removeConnectionInLoop id)

/-- A connection goes on, and the server is told of each close. It does not look at the connection
then, so it does not matter that the rest of the handler comes first. -/
def onConn (s : Server) (id : ℕ) (e : Session) (c : Conn) : Server :=
  (fun s => s.removeConnection id e)^[c.trace.count .closeCallback -
    e.conn.trace.count .closeCallback] (s.setSession id { e with conn := c })

def call (s : Server) (ks : List Call) (p : Handed) : Server :=
  match s.sessions[p.id]? with
  | none => s
  | some e =>
    match p with
    | .connectEstablished id => (s.log p).onConn id e (e.conn.connectEstablished ks)
    | .removeConnectionInLoop id =>
      if s.alive then s.removeConnectionInLoop id e else { s with dangling := true }
    | .connectDestroyed id =>
      (s.log p).setSession id { e with conn := e.conn.connectDestroyed ks, removed := true }

/-- `RunInLoop` in the thread of the loop `here`. -/
def runInLoop (s : Server) (here l : ℕ) (ks : List Call) (p : Handed) : Server :=
  if here = l then s.call ks p else s.queueInLoop l p

/-- The new connection; no callback for a high water mark is set. -/
def session (s : Server) (errno : ℕ) : Session where
  name := s.connName s.nextConnId
  loop := s.getNextLoop.1
  conn := .create s.sslCtx s.enableEt s.writeCompleteCallback false (64 * 1024 * 1024) errno
  removed := false

/-- `newConnection` up to its last statement. -/
def enlist (s : Server) (errno : ℕ) : Server :=
  let e := s.session errno
  { s.getNextLoop.2 with
    nextConnId := s.nextConnId + 1
    sessions := s.sessions ++ [e]
    connections := s.connections.filter (·.1 ≠ e.name) ++ [(e.name, s.sessions.length)] }

def newConnection (s : Server) (errno : ℕ) (ks : List Call) : Server :=
  (s.enlist errno).runInLoop 0 s.getNextLoop.1 ks (.connectEstablished s.sessions.length)

/-- The body of the loop in the destructor, for the connection `id`. The order of the connections is
that of their names; here it is open. -/
def destroy (s : Server) (here id : ℕ) (ks : List Call) : Server :=
  { s with connections := s.connections.filter (·.2 ≠ id) }.runInLoop here
    ((s.sessions[id]?.map Session.loop).getD 0) ks (.connectDestroyed id)

/-- While its thread is in the destructor, a loop calls nothing. -/
def step (s : Server) : ServerStep → Option Server
  | .newConnection errno ks => if s.alive then some (s.newConnection errno ks) else none
  | .turn l ks =>
    if s.life = .destructing l then none
    else
      match s.queue l with
      | [] => none
      | p :: ps => some ((s.setQueue l ps).call ks p)
  | .act id a =>
    match s.sessions[id]? with
    | none => none
    | some e =>
      if e.conn.state = .kConnecting ∨ a.polled = true ∧ e.removed = true ∨
          s.life = .destructing e.loop ∧ a.isUser = false then none
      else (e.conn.step a).map (s.onConn id e)
  | .getNextLoop => some s.getNextLoop.2
  | .destruct here => if s.alive then some { s with life := .destructing here } else none
  | .destroy id ks =>
    match s.life with
    | .destructing here =>
      if s.connections.any (·.2 = id) then some (s.destroy here id ks) else none
    | .up | .destructed => none
  | .destructed =>
    match s.life with
    | .destructing _ => if s.connections = [] then some { s with life := .destructed } else none
    | .up | .destructed => none

def CallOk (s : Server) (ks : List Call) : Handed → Prop
  | .connectEstablished id => ∀ e ∈ s.sessions[id]?, e.conn.ActionOk (.connectEstablished ks)
  | .connectDestroyed id =>
    ∀ e ∈ s.sessions[id]?, e.conn.state = .kConnected → e.conn.destroyed.CallsOk ks
  | .removeConnectionInLoop _ => True

/-- What happens at a connection is as in `Conn.ActionOk`, and `nextConnId_` does not overflow. -/
def StepOk (s : Server) : ServerStep → Prop
  | .newConnection errno ks => s.nextConnId < 0x7fffffff ∧
    (s.getNextLoop.1 = 0 → (s.session errno).conn.ActionOk (.connectEstablished ks))
  | .turn l ks => ∀ p ∈ (s.queue l).head?, s.CallOk ks p
  | .act id a => ∀ e ∈ s.sessions[id]?, e.conn.ActionOk a
  | .destroy id ks => s.CallOk ks (.connectDestroyed id)
  | .getNextLoop | .destruct _ | .destructed => True

instance (s : Server) (ks : List Call) : ∀ p, Decidable (s.CallOk ks p)
  | .connectEstablished id => inferInstanceAs (Decidable (∀ e ∈ s.sessions[id]?, _))
  | .connectDestroyed id =>
    inferInstanceAs (Decidable (∀ e ∈ s.sessions[id]?, (_ = StateE.kConnected → _)))
  | .removeConnectionInLoop _ => .isTrue trivial

instance (s : Server) : ∀ a, Decidable (s.StepOk a)
  | .newConnection _ _ => inferInstanceAs (Decidable (_ ∧ (_ → _)))
  | .turn l ks => inferInstanceAs (Decidable (∀ p ∈ (s.queue l).head?, s.CallOk ks p))
  | .act id _ => inferInstanceAs (Decidable (∀ e ∈ s.sessions[id]?, _))
  | .destroy id ks => inferInstanceAs (Decidable (s.CallOk ks (.connectDestroyed id)))
  | .getNextLoop | .destruct _ | .destructed => .isTrue trivial

end Server

end LibWebsocket.Tcp
