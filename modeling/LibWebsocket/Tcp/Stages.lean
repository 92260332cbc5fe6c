import LibWebsocket.Tcp.Server
import Mathlib.Algebra.BigOperators.Group.Finset.Piecewise
import Mathlib.Algebra.Order.Ring.Nat

/-! The life of a connection in a server: it is set up in its loop, closes there, is taken from the
map in the loop of the server and destroyed in its own loop, in every order in which the loops go
on. -/
namespace LibWebsocket.Tcp
open Lib

/-! ## Closed connections -/

namespace Conn
variable {c : Conn} {a : Action} {errno : ℕ}

theorem Closed.handshake (h : c.Closed) {hs : Handshake} (hok : c.HandshakeOk hs) :
    (c.handshake hs errno).Closed := by
  have hc : Closed { c with
      sslConnected := (sslHandshake c.ssl hs).1, ssl := (sslHandshake c.ssl hs).2.1 } :=
    ⟨h.state, h.channel, h.closeLog⟩
  exact hc.react (by simp [hok h.state])

/-- A closed connection stays closed. -/
theorem Closed.perform (h : c.Closed) (hne : ∀ ks, a ≠ .connectEstablished ks)
    (hok : c.ActionOk a) : (c.perform a).Closed := by
  cases a with
  | connectEstablished ks => exact absurd rfl (hne ks)
  | handleRead hs r ks =>
    dsimp only [ActionOk] at hok
    dsimp only [Conn.perform, Conn.handleRead]
    split_ifs at hok ⊢ with hh
    · exact h.handshake hok
    · have hreceived : (c.received r).Closed := ⟨h.state, h.channel, h.closeLog⟩
      have hread : (c.readMessage r ks).Closed := by
        unfold readMessage
        split_ifs with hd
        · exact hreceived
        · exact foldl_invariant (fun hs hk => hs.call hk) hreceived (hok.1 hd)
      have hset : Closed ((c.readMessage r ks).setErrno
          ((c.readMessage r ks).readReaction (c.savedErrno r)).2) :=
        ⟨hread.state, hread.channel, hread.closeLog⟩
      exact hset.react (hok.2 hread.state)
  | handleWrite hs w =>
    dsimp only [Conn.perform, Conn.handleWrite]
    split_ifs with hh hw
    · exact h.handshake (hok hh)
    · simp [h.channel, Channel.none] at hw
    · exact h
  | handleClose errno => exact absurd h.state hok
  | sendInLoop data w =>
    dsimp only [Conn.perform, Conn.sendInLoop]
    rwa [if_pos h.state]
  | forceCloseInLoop errno =>
    dsimp only [Conn.perform, Conn.forceCloseInLoop]
    rwa [if_neg (by simp [h.state])]
  | user k => exact h.call hok

theorem count_of_closeLog (h : c.closeLog = []) : c.trace.count .closeCallback = 0 := by
  rw [← count_closeLog, h, List.count_nil]

theorem Open.count_closeCallback (h : c.Open) : c.trace.count .closeCallback = 0 :=
  count_of_closeLog h.closeLog

theorem Closed.count_closeCallback (h : c.Closed) : c.trace.count .closeCallback = 1 := by
  obtain ⟨st, -, hlog⟩ := h.closeLog
  rw [← count_closeLog, hlog]
  rfl

theorem established_settled {ks : List Call} (hlog : c.closeLog = [])
    (hok : c.ActionOk (.connectEstablished ks)) : (c.connectEstablished ks).Settled := by
  have hconn : Open (enableReading { c with state := .kConnected }) := ⟨Or.inl rfl, hlog⟩
  exact Settled.calls (Or.inl (hconn.frame (.log rfl))) hok

end Conn

/-! ## The stages of a connection -/

inductive Stage
  | connecting
  | opened
  | closing
  | removing
  | destroyed
deriving DecidableEq, Repr

namespace Stage

/-- What loop `l` has still to call, for a connection of the loop `loop`. -/
def pending (id loop l : ℕ) : Stage → List Handed
  | .connecting => if loop = l then [.connectEstablished id] else []
  | .closing => if 0 = l then [.removeConnectionInLoop id] else []
  | .removing => if loop = l then [.connectDestroyed id] else []
  | .opened | .destroyed => []

def history (id : ℕ) : Stage → List Handed
  | .connecting => []
  | .opened | .closing => [.connectEstablished id]
  | .removing => [.connectEstablished id, .removeConnectionInLoop id]
  | .destroyed => [.connectEstablished id, .removeConnectionInLoop id, .connectDestroyed id]

/-- The server has the connection in its map. -/
def listed : Stage → Bool
  | .connecting | .opened | .closing => true
  | .removing | .destroyed => false

def Fits (c : Conn) : Stage → Prop
  | .connecting => c.state = .kConnecting ∧ c.closeLog = []
  | .opened => c.Open
  | .closing | .removing | .destroyed => c.Closed

theorem pending_eq_cons {st : Stage} {id loop l : ℕ} {p : Handed} {ps : List Handed}
    (h : st.pending id loop l = p :: ps) :
    (l = loop ∨ l = 0) ∧ ps = [] ∧ (∀ l' ≠ l, st.pending id loop l' = []) ∧
    (st = .connecting ∧ p = .connectEstablished id ∨
      st = .closing ∧ p = .removeConnectionInLoop id ∨
      st = .removing ∧ p = .connectDestroyed id) := by
  cases st with
  | opened | destroyed => cases h
  | connecting | closing | removing =>
    rw [pending] at h
    split_ifs at h with hl
    cases h
    subst hl
    refine ⟨by simp, rfl, fun l' hl' => if_neg hl'.symm, by simp⟩

end Stage

namespace Server
variable {s s' s'' : Server} {id j l : ℕ} {e : Session} {st : Stage}

/-- What loop `l` has to call for a connection. -/
def pending (s : Server) (id l : ℕ) : List Handed := (s.queue l).filter (·.id = id)

def history (s : Server) (id : ℕ) : List Handed := s.ran.filter (·.id = id)

/-- The connection is at a stage. In the loop of the server nothing waits that need not. -/
structure At (s : Server) (id : ℕ) (e : Session) (st : Stage) : Prop where
  conn : st.Fits e.conn
  pending : ∀ l, s.pending id l = st.pending id e.loop l
  history : s.history id = st.history id
  listed : (e.name, id) ∈ s.connections ↔ st.listed = true
  loop : st = .connecting ∨ st = .closing → e.loop ≠ 0

/-- All that changes belongs to one connection. -/
structure Only (id : ℕ) (s s' : Server) : Prop where
  settings : s'.name = s.name ∧ s'.ipPort = s.ipPort ∧ s'.loops = s.loops ∧ s'.next = s.next ∧
    s'.nextConnId = s.nextConnId ∧ s'.alive = s.alive
  length : s'.sessions.length = s.sessions.length
  sessions : ∀ j ≠ id, s'.sessions[j]? = s.sessions[j]?
  pending : ∀ j ≠ id, ∀ l, s'.pending j l = s.pending j l
  history : ∀ j ≠ id, s'.history j = s.history j
  listed : ∀ j ≠ id, ∀ n, (n, j) ∈ s'.connections ↔ (n, j) ∈ s.connections

namespace Only

theorem trans (h : Only id s s') (h' : Only id s' s'') : Only id s s'' where
  settings := by simp only [h'.settings, h.settings, and_self]
  length := h'.length.trans h.length
  sessions j hj := (h'.sessions j hj).trans (h.sessions j hj)
  pending j hj l := (h'.pending j hj l).trans (h.pending j hj l)
  history j hj := (h'.history j hj).trans (h.history j hj)
  listed j hj n := (h'.listed j hj n).trans (h.listed j hj n)

end Only

theorem only_setSession : Only id s (s.setSession id e) where
  settings := ⟨rfl, rfl, rfl, rfl, rfl, rfl⟩
  length := List.length_set
  sessions _ hj := List.getElem?_set_ne hj.symm
  pending _ _ _ := rfl
  history _ _ := rfl
  listed _ _ _ := .rfl

theorem history_log (p : Handed) :
    (s.log p).history j = s.history j ++ if p.id = j then [p] else [] := by
  rw [history, history, log, List.filter_append, List.filter_singleton]
  simp

theorem only_log {p : Handed} (hp : p.id = id) : Only id s (s.log p) where
  settings := ⟨rfl, rfl, rfl, rfl, rfl, rfl⟩
  length := rfl
  sessions _ _ := rfl
  pending _ _ _ := rfl
  history j hj := by rw [history_log, hp, if_neg hj.symm, List.append_nil]
  listed _ _ _ := .rfl

theorem pending_queueInLoop (p : Handed) (l' : ℕ) : (s.queueInLoop l p).pending j l' =
    s.pending j l' ++ if l = l' ∧ p.id = j then [p] else [] := by
  dsimp only [pending, queueInLoop, setQueue]
  by_cases hl : l' = l
  · subst hl
    rw [Function.update_self, List.filter_append, List.filter_singleton]
    simp
  · rw [Function.update_of_ne hl, if_neg fun h => hl h.1.symm, List.append_nil]

theorem only_queueInLoop {p : Handed} (hp : p.id = id) : Only id s (s.queueInLoop l p) where
  settings := ⟨rfl, rfl, rfl, rfl, rfl, rfl⟩
  length := rfl
  sessions _ _ := rfl
  pending j hj l' := by
    rw [pending_queueInLoop, if_neg fun h => hj (h.2.symm.trans hp), List.append_nil]
  history _ _ := rfl
  listed _ _ _ := .rfl

theorem mem_erase {name n : Bytes} :
    (n, j) ∈ (s.erase name).connections ↔ (n, j) ∈ s.connections ∧ n ≠ name := by
  rw [erase, List.mem_filter, decide_eq_true_eq]

/-- Names are unique as far as the map goes. -/
theorem only_erase {name : Bytes} (h : ∀ j, (name, j) ∈ s.connections → j = id) :
    Only id s (s.erase name) where
  settings := ⟨rfl, rfl, rfl, rfl, rfl, rfl⟩
  length := rfl
  sessions _ _ := rfl
  pending _ _ _ := rfl
  history _ _ := rfl
  listed j hj n := by
    rw [mem_erase, and_iff_left_iff_imp]
    rintro hmem rfl
    exact hj (h j hmem)

/-- The next one is taken from a queue. -/
theorem only_pop {p : Handed} {ps : List Handed} (h : s.queue l = p :: ps) (hp : p.id = id) :
    Only id s (s.setQueue l ps) where
  settings := ⟨rfl, rfl, rfl, rfl, rfl, rfl⟩
  length := rfl
  sessions _ _ := rfl
  pending j hj l' := by
    dsimp only [pending, setQueue]
    by_cases hl : l' = l
    · subst hl
      have hne : p.id ≠ j := fun hpj => hj (hpj.symm.trans hp)
      rw [Function.update_self, h, List.filter_cons_of_neg (by simpa using hne)]
    · rw [Function.update_of_ne hl]
  history _ _ := rfl
  listed _ _ _ := .rfl

/-! ## A connection that is up -/

/-- `connectEstablished` has been called, and nothing waits. -/
structure Up (s : Server) (id : ℕ) (e : Session) : Prop where
  alive : s.alive = true
  entry : s.sessions[id]? = some e
  pending : ∀ l, s.pending id l = []
  history : s.history id = [.connectEstablished id]
  listed : (e.name, id) ∈ s.connections
  name : ∀ j, (e.name, j) ∈ s.connections → j = id

/-- A connection goes on to `e'`, at some stage. -/
structure Goes (s s' : Server) (id : ℕ) (e' : Session) : Prop where
  only : Only id s s'
  entry : s'.sessions[id]? = some e'
  listed : ∀ n, (n, id) ∈ s'.connections → (n, id) ∈ s.connections
  erased : s'.erased = s.erased
  dangling : s'.dangling = s.dangling
  stage : ∃ st, s'.At id e' st

theorem entry_setSession {e' : Session} (he : s.sessions[id]? = some e) :
    (s.setSession id e').sessions[id]? = some e' := by
  obtain ⟨hlt, -⟩ := List.getElem?_eq_some_iff.mp he
  exact List.getElem?_set_self hlt

theorem Up.setSession (h : s.Up id e) (c : Conn) :
    (s.setSession id { e with conn := c }).Up id { e with conn := c } where
  alive := h.alive
  entry := entry_setSession h.entry
  pending := h.pending
  history := h.history
  listed := h.listed
  name := h.name

theorem Up.opened (h : s.Up id e) (hopen : e.conn.Open) : s.At id e .opened where
  conn := hopen
  pending := h.pending
  history := h.history
  listed := iff_of_true h.listed rfl
  loop hst := by simp at hst

theorem Up.removeConnectionInLoop (h : s.Up id e) (hclosed : e.conn.Closed) :
    Goes s (s.removeConnectionInLoop id e) id e := by
  have hlog : Only id s (s.log (.removeConnectionInLoop id)) := only_log rfl
  have herase := hlog.trans (only_erase h.name)
  refine ⟨herase.trans (only_queueInLoop rfl), h.entry, fun n hn => (mem_erase.mp hn).1, ?_, rfl,
    .removing, hclosed, fun l => ?_, ?_, ?_, nofun⟩
  · have hany : s.connections.any (·.1 = e.name) = true :=
      List.any_eq_true.mpr ⟨_, h.listed, by simp⟩
    exact (congrArg (s.erased && ·) hany).trans (Bool.and_true _)
  · rw [Server.removeConnectionInLoop, pending_queueInLoop]
    refine (congrArg (· ++ _) (h.pending l)).trans ?_
    simp [Stage.pending, Handed.id]
  · refine (history_log _).trans ?_
    rw [h.history, Handed.id, if_pos rfl]
    rfl
  · exact iff_of_false (fun hmem => (mem_erase.mp hmem).2 rfl) (by simp [Stage.listed])

/-- Where the close callback takes a connection. -/
theorem Up.removeConnection (h : s.Up id e) (hclosed : e.conn.Closed) :
    Goes s (s.removeConnection id e) id e := by
  rw [Server.removeConnection, if_neg (not_not.mpr h.alive)]
  split_ifs with hloop
  · exact h.removeConnectionInLoop hclosed
  · refine ⟨only_queueInLoop rfl, h.entry, fun n hn => hn, rfl, rfl, .closing, hclosed, fun l => ?_,
      h.history, iff_of_true h.listed rfl, fun _ => hloop⟩
    rw [pending_queueInLoop, h.pending]
    simp [Stage.pending, Handed.id]

theorem onConn_of_count_eq {c : Conn}
    (h : c.trace.count .closeCallback = e.conn.trace.count .closeCallback) :
    s.onConn id e c = s.setSession id { e with conn := c } := by
  rw [onConn, h, Nat.sub_self]
  rfl

theorem onConn_of_closed {c : Conn} (h : e.conn.trace.count .closeCallback = 0) (hc : c.Closed) :
    s.onConn id e c =
      (s.setSession id { e with conn := c }).removeConnection id { e with conn := c } := by
  rw [onConn, h, hc.count_closeCallback]
  rfl

theorem Goes.of_only {e' : Session} (h : Only id s s')
    (hlisted : ∀ n, (n, id) ∈ s'.connections → (n, id) ∈ s.connections)
    (herased : s'.erased = s.erased) (hdangling : s'.dangling = s.dangling)
    (h' : Goes s' s'' id e') : Goes s s'' id e' where
  only := h.trans h'.only
  entry := h'.entry
  listed n hn := hlisted n (h'.listed n hn)
  erased := h'.erased.trans herased
  dangling := h'.dangling.trans hdangling
  stage := h'.stage

/-- Whatever a connection that is up does, it remains so, or the server comes to know that it is
closed. -/
theorem Up.onConn (h : s.Up id e) (hcount : e.conn.trace.count .closeCallback = 0) {c : Conn}
    (hc : c.Settled) : Goes s (s.onConn id e c) id { e with conn := c } := by
  have hup := h.setSession c
  rcases hc with hopen | hclosed
  · rw [onConn_of_count_eq (hopen.count_closeCallback.trans hcount.symm)]
    exact ⟨only_setSession, hup.entry, fun _ hn => hn, rfl, rfl, .opened, hup.opened hopen⟩
  · rw [onConn_of_closed hcount hclosed]
    exact .of_only (only_setSession) (fun _ hn => hn) rfl rfl (hup.removeConnection hclosed)

/-! ## The server -/

theorem connName_inj {i : ℕ} (hshort : s.ipPort.length ≤ 51) (hi : i < 10 ^ 10) (hj : j < 10 ^ 10)
    (h : s.connName i = s.connName j) : i = j := by
  have hlen (k : ℕ) (hk : k < 10 ^ 10) :
      (45 :: s.ipPort ++ 35 :: numeral decimalDigit 10 k).length ≤ 63 := by
    have hle : (numeral decimalDigit 10 k).length ≤ 9 + 1 := length_numeral_le hk
    simp only [List.length_append, List.length_cons]
    omega
  rw [connName, connName, List.take_of_length_le (hlen i hi), List.take_of_length_le (hlen j hj)] at h
  have htext : numeral decimalDigit 10 i = numeral decimalDigit 10 j := by simpa using h
  exact numeral_inj (by decide) (fun d hd => decimalValue_decimalDigit hd) htext

/-- What holds of the server whatever the stages of its connections. -/
structure Base (s : Server) : Prop where
  short : s.ipPort.length ≤ 51
  next : s.loops = 0 ∨ s.next < s.loops
  bound : s.nextConnId ≤ 0x7fffffff
  ids : s.nextConnId = s.sessions.length + 1
  entries : ∀ j e, s.sessions[j]? = some e → e.name = s.connName (j + 1) ∧ e.loop ≤ s.loops
  keys : ∀ n j, (n, j) ∈ s.connections → ∃ e, s.sessions[j]? = some e ∧ n = e.name
  ahead : ∀ l, ∀ p ∈ s.queue l, p.id < s.sessions.length
  past : ∀ p ∈ s.ran, p.id < s.sessions.length
  erased : s.erased = true
  dangling : s.dangling = false

/-- Every connection is at a stage. -/
structure Sound (s : Server) : Prop extends Base s where
  stages : ∀ j e, s.sessions[j]? = some e → ∃ st, s.At j e st

/-- No two connections have the same name. -/
theorem Base.name_inj {e' : Session} (h : s.Base) (he : s.sessions[id]? = some e)
    (he' : s.sessions[j]? = some e') (hname : e.name = e'.name) : id = j := by
  obtain ⟨hlt, -⟩ := List.getElem?_eq_some_iff.mp he
  obtain ⟨hlt', -⟩ := List.getElem?_eq_some_iff.mp he'
  have hbound := h.bound
  have hids := h.ids
  rw [(h.entries _ _ he).1, (h.entries _ _ he').1] at hname
  have := connName_inj h.short (by omega) (by omega) hname
  omega

theorem Base.name (h : s.Base) (he : s.sessions[id]? = some e) :
    ∀ j, (e.name, j) ∈ s.connections → j = id := by
  intro j hmem
  obtain ⟨e', he', hname⟩ := h.keys _ _ hmem
  exact (h.name_inj he he' hname).symm

theorem At.of_only (h : s.At j e st) (honly : Only id s s') (hj : j ≠ id) : s'.At j e st where
  conn := h.conn
  pending l := (honly.pending j hj l).trans (h.pending l)
  history := (honly.history j hj).trans h.history
  listed := (honly.listed j hj _).trans h.listed
  loop := h.loop

/-- The rest of the server does not notice what happens to one connection. -/
theorem Base.goes {f : Session} (h : s.Base)
    (hstages : ∀ j ≠ id, ∀ e, s.sessions[j]? = some e → ∃ st, s.At j e st)
    (he : s.sessions[id]? = some e) (hgoes : Goes s s' id f) (hname : f.name = e.name)
    (hloop : f.loop = e.loop) : s'.Sound := by
  have honly := hgoes.only
  obtain ⟨hsname, hipPort, hloops, hnext, hnextConnId, -⟩ := honly.settings
  have hconnName (k : ℕ) : s'.connName k = s.connName k := by rw [connName, hsname, hipPort]; rfl
  obtain ⟨hlt, -⟩ := List.getElem?_eq_some_iff.mp he
  refine ⟨⟨?_, ?_, ?_, ?_, fun j e₁ he₁ => ?_, fun n j hmem => ?_, fun l p hp => ?_,
    fun p hp => ?_, ?_, ?_⟩, fun j e₁ he₁ => ?_⟩
  · rw [hipPort]
    exact h.short
  · rw [hloops, hnext]
    exact h.next
  · rw [hnextConnId]
    exact h.bound
  · rw [hnextConnId, honly.length]
    exact h.ids
  · rw [hconnName, hloops]
    by_cases hj : j = id
    · subst hj
      obtain rfl := Option.some.inj (hgoes.entry.symm.trans he₁)
      rw [hname, hloop]
      exact h.entries _ _ he
    · exact h.entries _ _ ((honly.sessions j hj).symm.trans he₁)
  · by_cases hj : j = id
    · subst hj
      obtain ⟨e₂, he₂, hn⟩ := h.keys _ _ (hgoes.listed n hmem)
      obtain rfl := Option.some.inj (he.symm.trans he₂)
      exact ⟨f, hgoes.entry, hn.trans hname.symm⟩
    · rw [honly.sessions j hj]
      exact h.keys _ _ ((honly.listed j hj n).mp hmem)
  · rw [honly.length]
    by_cases hj : p.id = id
    · rwa [hj]
    · have hmem : p ∈ s'.pending p.id l := List.mem_filter.mpr ⟨hp, by simp⟩
      rw [honly.pending _ hj] at hmem
      exact h.ahead l p (List.mem_filter.mp hmem).1
  · rw [honly.length]
    by_cases hj : p.id = id
    · rwa [hj]
    · have hmem : p ∈ s'.history p.id := List.mem_filter.mpr ⟨hp, by simp⟩
      rw [honly.history _ hj] at hmem
      exact h.past p (List.mem_filter.mp hmem).1
  · exact hgoes.erased.trans h.erased
  · exact hgoes.dangling.trans h.dangling
  · by_cases hj : j = id
    · subst hj
      obtain rfl := Option.some.inj (hgoes.entry.symm.trans he₁)
      exact hgoes.stage
    · obtain ⟨st, hat⟩ := hstages j hj e₁ ((honly.sessions j hj).symm.trans he₁)
      exact ⟨st, hat.of_only honly hj⟩

theorem Sound.goes {f : Session} (h : s.Sound) (he : s.sessions[id]? = some e)
    (hgoes : Goes s s' id f) (hname : f.name = e.name) (hloop : f.loop = e.loop) : s'.Sound :=
  h.toBase.goes (fun j _ => h.stages j) he hgoes hname hloop

section call
variable {ks : List Call}

theorem call_connectEstablished (he : s.sessions[id]? = some e) :
    s.call ks (.connectEstablished id) =
      (s.log (.connectEstablished id)).onConn id e (e.conn.connectEstablished ks) := by
  rw [call, Handed.id, he]

theorem call_removeConnectionInLoop (he : s.sessions[id]? = some e) :
    s.call ks (.removeConnectionInLoop id) =
      if s.alive then s.removeConnectionInLoop id e else { s with dangling := true } := by
  rw [call, Handed.id, he]

theorem call_connectDestroyed (he : s.sessions[id]? = some e) :
    s.call ks (.connectDestroyed id) = (s.log (.connectDestroyed id)).setSession id
      { e with conn := e.conn.connectDestroyed ks, removed := true } := by
  rw [call, Handed.id, he]

end call

/-- What is next in a queue says at which stage its connection is. -/
theorem At.head {p : Handed} {ps : List Handed} (h : s.At id e st) (hq : s.queue l = p :: ps)
    (hp : p.id = id) : (l = e.loop ∨ l = 0) ∧ (∀ l', (s.setQueue l ps).pending id l' = []) ∧
    (st = .connecting ∧ p = .connectEstablished id ∨
      st = .closing ∧ p = .removeConnectionInLoop id ∨
      st = .removing ∧ p = .connectDestroyed id) := by
  have hpending := h.pending l
  rw [Server.pending, hq, List.filter_cons_of_pos (by simpa using hp)] at hpending
  obtain ⟨hl, hps, hother, hst⟩ := Stage.pending_eq_cons hpending.symm
  refine ⟨hl, fun l' => ?_, hst⟩
  dsimp only [Server.pending, setQueue]
  by_cases hl : l' = l
  · rw [hl, Function.update_self]
    exact hps
  · rw [Function.update_of_ne hl]
    exact (h.pending l').trans (hother l' hl)

theorem Sound.head {p : Handed} {ps : List Handed} (h : s.Sound) (hq : s.queue l = p :: ps) :
    ∃ id e st, s.sessions[id]? = some e ∧ s.At id e st ∧ l ≤ s.loops ∧
      Only id s (s.setQueue l ps) ∧ (∀ l', (s.setQueue l ps).pending id l' = []) ∧
      (st = .connecting ∧ p = .connectEstablished id ∨
        st = .closing ∧ p = .removeConnectionInLoop id ∨
        st = .removing ∧ p = .connectDestroyed id) := by
  have hlt : p.id < s.sessions.length := h.ahead l p (by rw [hq]; exact List.mem_cons_self)
  obtain ⟨e, he⟩ : ∃ e, s.sessions[p.id]? = some e := ⟨_, List.getElem?_eq_getElem hlt⟩
  obtain ⟨st, hat⟩ := h.stages _ e he
  obtain ⟨-, hloop⟩ := h.entries _ e he
  obtain ⟨hl, hpending, hst⟩ := hat.head hq rfl
  exact ⟨p.id, e, st, he, hat, by omega, only_pop hq rfl, hpending, hst⟩

theorem Sound.turn {p : Handed} {ps : List Handed} {ks : List Call} (h : s.Sound)
    (halive : s.alive = true) (hq : s.queue l = p :: ps) (hok : s.StepOk (.turn l ks)) :
    ((s.setQueue l ps).call ks p).Sound := by
  obtain ⟨id, e, st, he, hat, -, hpop, hpending, hst⟩ := h.head hq
  rcases hst with ⟨rfl, rfl⟩ | ⟨rfl, rfl⟩ | ⟨rfl, rfl⟩
  · obtain ⟨-, hlog⟩ := hat.conn
    have hcall : s.CallOk ks (.connectEstablished id) := hok _ (by rw [hq]; rfl)
    have hup : ((s.setQueue l ps).log (.connectEstablished id)).Up id e := by
      refine ⟨halive, he, hpending, ?_, hat.listed.mpr rfl, h.toBase.name he⟩
      refine (history_log _).trans ?_
      rw [Handed.id, if_pos rfl]
      exact congrArg (· ++ _) hat.history
    have hgoes := hup.onConn (Conn.count_of_closeLog hlog)
      (Conn.established_settled hlog (hcall e he))
    have honly : Only id s ((s.setQueue l ps).log (.connectEstablished id)) :=
      hpop.trans (only_log rfl)
    rw [call_connectEstablished (s := s.setQueue l ps) he]
    exact h.goes he (.of_only honly (fun _ hn => hn) rfl rfl hgoes) rfl rfl
  · have hup : (s.setQueue l ps).Up id e :=
      ⟨halive, he, hpending, hat.history, hat.listed.mpr rfl, h.toBase.name he⟩
    rw [call_removeConnectionInLoop (s := s.setQueue l ps) he,
      if_pos (show (s.setQueue l ps).alive = true from halive)]
    exact h.goes he (.of_only hpop (fun _ hn => hn) rfl rfl (hup.removeConnectionInLoop hat.conn))
      rfl rfl
  · have hclosed : e.conn.Closed := hat.conn
    have hsame : e.conn.connectDestroyed ks = e.conn := if_neg (by simp [hclosed.state])
    have honly : Only id s ((s.setQueue l ps).log (.connectDestroyed id)) :=
      hpop.trans (only_log rfl)
    rw [call_connectDestroyed (s := s.setQueue l ps) he, hsame]
    refine h.goes he (f := { e with removed := true }) ⟨honly.trans only_setSession,
      entry_setSession he, fun _ hn => hn, rfl, rfl, .destroyed, hclosed, hpending, ?_, hat.listed,
      nofun⟩ rfl rfl
    refine (history_log _).trans ?_
    rw [Handed.id, if_pos rfl]
    exact congrArg (· ++ _) hat.history

theorem Sound.act {a : Action} (h : s.Sound) (halive : s.alive = true)
    (he : s.sessions[id]? = some e) (hstate : e.conn.state ≠ .kConnecting)
    (hne : ∀ ks, a ≠ .connectEstablished ks) (hok : e.conn.ActionOk a) :
    (s.onConn id e (e.conn.perform a)).Sound := by
  obtain ⟨st, hat⟩ := h.stages _ e he
  have hstays (hclosed : e.conn.Closed) (hfits : st.Fits (e.conn.perform a)) :
      (s.onConn id e (e.conn.perform a)).Sound := by
    have hcount := (hclosed.perform hne hok).count_closeCallback
    rw [onConn_of_count_eq (hcount.trans hclosed.count_closeCallback.symm)]
    refine h.goes he (f := { e with conn := e.conn.perform a }) ⟨only_setSession,
      entry_setSession he, fun _ hn => hn, rfl, rfl, st, hfits, hat.pending, hat.history,
      hat.listed, hat.loop⟩ rfl rfl
  have hconn := hat.conn
  cases st with
  | connecting => exact absurd hconn.1 hstate
  | opened =>
    have hup : s.Up id e :=
      ⟨halive, he, hat.pending, hat.history, hat.listed.mpr rfl, h.toBase.name he⟩
    have hsettled := Conn.Settled.perform (Or.inl hconn) hne hok
    exact h.goes he (hup.onConn hconn.count_closeCallback hsettled) rfl rfl
  | closing | removing | destroyed => exact hstays hconn (hconn.perform hne hok)

theorem getNextLoop_le (h : s.loops = 0 ∨ s.next < s.loops) : s.getNextLoop.1 ≤ s.loops ∧
    (s.getNextLoop.2.loops = 0 ∨ s.getNextLoop.2.next < s.getNextLoop.2.loops) := by
  rw [getNextLoop]
  split_ifs with hloops hle
  · exact ⟨Nat.zero_le _, Or.inl hloops⟩
  · dsimp only
    omega
  · dsimp only
    omega

theorem getNextLoop_eq (s : Server) : ∃ next, s.getNextLoop.2 = { s with next := next } := by
  rw [getNextLoop]
  split_ifs
  · exact ⟨s.next, rfl⟩
  · exact ⟨_, rfl⟩
  · exact ⟨_, rfl⟩

theorem Sound.getNextLoop (h : s.Sound) : s.getNextLoop.2.Sound := by
  have hnext := (getNextLoop_le h.next).2
  obtain ⟨next, heq⟩ := s.getNextLoop_eq
  rw [heq] at hnext ⊢
  refine ⟨⟨h.short, hnext, h.bound, h.ids, h.entries, h.keys, h.ahead, h.past, h.erased,
    h.dangling⟩, fun j e he => ?_⟩
  obtain ⟨st, hat⟩ := h.stages j e he
  exact ⟨st, hat.conn, hat.pending, hat.history, hat.listed, hat.loop⟩

/-- The connection that is about to be made has no past, and its name is new. -/
theorem Sound.fresh (h : s.Sound) : (∀ l, s.pending s.sessions.length l = []) ∧
    s.history s.sessions.length = [] ∧
    ∀ j, (s.connName s.nextConnId, j) ∉ s.connections := by
  refine ⟨fun l => List.filter_eq_nil_iff.mpr fun p hp => ?_,
    List.filter_eq_nil_iff.mpr fun p hp => ?_, fun j hmem => ?_⟩
  · have := h.ahead l p hp
    simp only [decide_eq_true_eq]
    omega
  · have := h.past p hp
    simp only [decide_eq_true_eq]
    omega
  · obtain ⟨e, he, hname⟩ := h.keys _ _ hmem
    obtain ⟨hlt, -⟩ := List.getElem?_eq_some_iff.mp he
    have hbound := h.bound
    have hids := h.ids
    rw [(h.entries _ _ he).1] at hname
    have := connName_inj h.short (by omega) (by omega) hname
    omega

theorem enlist_same (s : Server) (errno : ℕ) : (s.enlist errno).name = s.name ∧
    (s.enlist errno).ipPort = s.ipPort ∧ (s.enlist errno).loops = s.loops ∧
    (s.enlist errno).queue = s.queue ∧ (s.enlist errno).ran = s.ran ∧
    (s.enlist errno).erased = s.erased ∧ (s.enlist errno).alive = s.alive ∧
    (s.enlist errno).dangling = s.dangling := by
  obtain ⟨next, heq⟩ := s.getNextLoop_eq
  rw [enlist, heq]
  exact ⟨rfl, rfl, rfl, rfl, rfl, rfl, rfl, rfl⟩

theorem mem_connections_enlist {errno : ℕ} {n : Bytes} :
    (n, j) ∈ (s.enlist errno).connections ↔ (n, j) ∈ s.connections ∧ n ≠ s.connName s.nextConnId ∨
      n = s.connName s.nextConnId ∧ j = s.sessions.length := by
  rw [enlist, List.mem_append, List.mem_filter, List.mem_singleton, Prod.mk.injEq,
    decide_eq_true_eq]
  rfl

theorem sessions_enlist {errno : ℕ} (hj : j ≠ s.sessions.length) :
    (s.enlist errno).sessions[j]? = s.sessions[j]? := by
  dsimp only [enlist]
  rcases Nat.lt_or_gt_of_ne hj with hlt | hgt
  · exact List.getElem?_append_left hlt
  · rw [List.getElem?_eq_none hgt.le, List.getElem?_eq_none]
    simpa using hgt

theorem entry_enlist (errno : ℕ) :
    (s.enlist errno).sessions[s.sessions.length]? = some (s.session errno) :=
  List.getElem?_concat_length

/-- The others do not notice that a connection is made. -/
theorem Sound.enlist (h : s.Sound) (hlt : s.nextConnId < 0x7fffffff) (errno : ℕ) :
    (s.enlist errno).Base ∧ ∀ j ≠ s.sessions.length, ∀ e, (s.enlist errno).sessions[j]? = some e →
      ∃ st, (s.enlist errno).At j e st := by
  obtain ⟨-, -, hnew⟩ := h.fresh
  obtain ⟨hloop, hnext⟩ := getNextLoop_le h.next
  have hlen : (s.enlist errno).sessions.length = s.sessions.length + 1 := List.length_append
  have hlisted (n : Bytes) (j : ℕ) (hj : j ≠ s.sessions.length) :
      (n, j) ∈ (s.enlist errno).connections ↔ (n, j) ∈ s.connections := by
    rw [mem_connections_enlist]
    constructor
    · rintro (⟨hmem, -⟩ | ⟨-, rfl⟩)
      · exact hmem
      · exact absurd rfl hj
    · intro hmem
      refine Or.inl ⟨hmem, ?_⟩
      rintro rfl
      exact hnew j hmem
  have hids := h.ids
  obtain ⟨hname, hipPort, hloops, hqueue, hran, herased, -, hdangling⟩ := s.enlist_same errno
  have hconnName (k : ℕ) : (s.enlist errno).connName k = s.connName k := by
    rw [connName, hipPort, hname]
    rfl
  constructor
  · refine ⟨?_, hnext, hlt, ?_, fun j e he => ?_, fun n j hmem => ?_, fun l p hp => ?_,
      fun p hp => ?_, herased.trans h.erased, hdangling.trans h.dangling⟩
    · rw [hipPort]
      exact h.short
    · rw [hlen]
      exact congrArg (· + 1) hids
    · rw [hconnName, hloops]
      by_cases hj : j = s.sessions.length
      · rw [hj, entry_enlist] at he
        cases he
        rw [hj, ← hids]
        exact ⟨rfl, hloop⟩
      · rw [sessions_enlist hj] at he
        exact h.entries j e he
    · by_cases hj : j = s.sessions.length
      · rw [hj] at hmem ⊢
        rw [entry_enlist]
        rcases mem_connections_enlist.mp hmem with ⟨hmem, -⟩ | ⟨hn, -⟩
        · obtain ⟨e, he, -⟩ := h.keys _ _ hmem
          rw [List.getElem?_eq_none (Nat.le_refl _)] at he
          cases he
        · exact ⟨_, rfl, hn⟩
      · rw [sessions_enlist hj]
        exact h.keys n j ((hlisted n j hj).mp hmem)
    · rw [hqueue] at hp
      rw [hlen]
      exact Nat.lt_succ_of_lt (h.ahead l p hp)
    · rw [hran] at hp
      rw [hlen]
      exact Nat.lt_succ_of_lt (h.past p hp)
  · intro j hj e he
    rw [sessions_enlist hj] at he
    obtain ⟨st, hat⟩ := h.stages j e he
    refine ⟨st, hat.conn, fun l => ?_, ?_, (hlisted _ j hj).trans hat.listed, hat.loop⟩
    · rw [pending, hqueue]
      exact hat.pending l
    · rw [history, hran]
      exact hat.history

theorem Sound.newConnection {errno : ℕ} {ks : List Call} (h : s.Sound) (halive : s.alive = true)
    (hok : s.StepOk (.newConnection errno ks)) : (s.newConnection errno ks).Sound := by
  obtain ⟨hlt, hok⟩ := hok
  obtain ⟨hbase, hstages⟩ := h.enlist hlt errno
  obtain ⟨hpending, hhistory, -⟩ := h.fresh
  obtain ⟨-, -, -, hqueue, hran, -, hsame, -⟩ := s.enlist_same errno
  have he := s.entry_enlist errno
  have hlisted : ((s.session errno).name, s.sessions.length) ∈ (s.enlist errno).connections :=
    mem_connections_enlist.mpr (Or.inr ⟨rfl, rfl⟩)
  have hpending' (l : ℕ) : (s.enlist errno).pending s.sessions.length l = [] := by
    rw [pending, hqueue]
    exact hpending l
  have hhistory' : (s.enlist errno).history s.sessions.length = [] := by
    rw [history, hran]
    exact hhistory
  rw [Server.newConnection, runInLoop]
  split_ifs with hloop
  · have hup : ((s.enlist errno).log (.connectEstablished s.sessions.length)).Up s.sessions.length
        (s.session errno) := by
      refine ⟨hsame.trans halive, he, hpending', ?_, hlisted, hbase.name he⟩
      rw [history_log, hhistory', Handed.id, if_pos rfl]
      rfl
    have hgoes := hup.onConn rfl (Conn.established_settled rfl (hok hloop.symm))
    have honly : Only s.sessions.length (s.enlist errno)
        ((s.enlist errno).log (.connectEstablished s.sessions.length)) := only_log rfl
    rw [call_connectEstablished he]
    exact hbase.goes hstages he (.of_only honly (fun _ hn => hn) rfl rfl hgoes) rfl rfl
  · refine hbase.goes hstages he (f := s.session errno) ⟨only_queueInLoop rfl, he,
      fun _ hn => hn, rfl, rfl, .connecting, ⟨rfl, rfl⟩, fun l => ?_, hhistory',
      iff_of_true hlisted rfl, fun _ => Ne.symm hloop⟩ rfl rfl
    rw [pending_queueInLoop, hpending']
    by_cases hl : s.getNextLoop.1 = l <;> simp [Stage.pending, Handed.id, session, hl]

theorem removeConnection_same : (s.removeConnection id e).alive = s.alive ∧
    (s.removeConnection id e).loops = s.loops := by
  rw [removeConnection]
  split_ifs <;> exact ⟨rfl, rfl⟩

theorem onConn_same {c : Conn} : (s.onConn id e c).alive = s.alive ∧
    (s.onConn id e c).loops = s.loops := by
  rw [onConn]
  generalize c.trace.count .closeCallback - e.conn.trace.count .closeCallback = n
  have hset : (s.setSession id { e with conn := c }).alive = s.alive ∧
      (s.setSession id { e with conn := c }).loops = s.loops := ⟨rfl, rfl⟩
  refine Function.Iterate.rec
    (fun s' : Server => s'.alive = s.alive ∧ s'.loops = s.loops) hset ?_ n
  intro s' hs'
  have hsame : (s'.removeConnection id e).alive = s'.alive ∧
    (s'.removeConnection id e).loops = s'.loops := removeConnection_same
  exact ⟨hsame.1.trans hs'.1, hsame.2.trans hs'.2⟩

theorem call_same {ks : List Call} {p : Handed} : (s.call ks p).alive = s.alive ∧
    (s.call ks p).loops = s.loops := by
  rw [call]
  split
  · exact ⟨rfl, rfl⟩
  · split
    · exact onConn_same
    · split_ifs <;> exact ⟨rfl, rfl⟩
    · exact ⟨rfl, rfl⟩

theorem runInLoop_same {here loop : ℕ} {ks : List Call} {p : Handed} :
    (s.runInLoop here loop ks p).alive = s.alive ∧ (s.runInLoop here loop ks p).loops = s.loops := by
  rw [runInLoop]
  split_ifs
  · exact call_same
  · exact ⟨rfl, rfl⟩

theorem turn_eq_some {ks : List Call} (h : s.step (.turn l ks) = some s') : ∃ p ps,
    s.life ≠ .destructing l ∧ s.queue l = p :: ps ∧ s' = (s.setQueue l ps).call ks p := by
  obtain ⟨hbusy, h⟩ := Option.ite_none_left_eq_some.mp h
  split at h
  · cases h
  · cases h
    exact ⟨_, _, hbusy, ‹_›, rfl⟩

theorem act_eq_some {a : Action} (h : s.step (.act id a) = some s') : ∃ e,
    s.sessions[id]? = some e ∧ e.conn.state ≠ .kConnecting ∧
    (e.removed = true → a.polled = false) ∧ (s.life = .destructing e.loop → a.isUser = true) ∧
    (∀ ks, a ≠ .connectEstablished ks) ∧ s' = s.onConn id e (e.conn.perform a) := by
  rw [step] at h
  split at h
  · cases h
  · rename_i e he
    obtain ⟨hnot, h⟩ := Option.ite_none_left_eq_some.mp h
    obtain ⟨c, hc, rfl⟩ := Option.map_eq_some_iff.mp h
    obtain ⟨hconnecting, -⟩ | ⟨hstate, hne, rfl⟩ := Conn.step_eq_some hc
    · exact absurd (Or.inl hconnecting) hnot
    refine ⟨e, he, hstate, fun hremoved => ?_, fun hbusy => ?_, hne, rfl⟩
    · exact Bool.eq_false_of_not_eq_true fun hp => hnot (Or.inr (Or.inl ⟨hp, hremoved⟩))
    · exact Bool.eq_true_of_not_eq_false fun hu => hnot (Or.inr (Or.inr ⟨hbusy, hu⟩))

theorem destroy_eq_some {ks : List Call} (h : s.step (.destroy id ks) = some s') : ∃ here,
    s.life = .destructing here ∧ s' = s.destroy here id ks := by
  rw [step] at h
  split at h
  · obtain ⟨-, ⟨⟩⟩ := Option.ite_none_right_eq_some.mp h
    exact ⟨_, ‹_›, rfl⟩
  · cases h
  · cases h

theorem destructed_eq_some (h : s.step .destructed = some s') : ∃ here,
    s.life = .destructing here ∧ s.connections = [] ∧ s' = { s with life := .destructed } := by
  rw [step] at h
  split at h
  · obtain ⟨hnil, ⟨⟩⟩ := Option.ite_none_right_eq_some.mp h
    exact ⟨_, ‹_›, hnil, rfl⟩
  · cases h
  · cases h

theorem alive_of_destructing {here : ℕ} (h : s.life = .destructing here) : s.alive = false := by
  simp [alive, h]

theorem step_same {a : ServerStep} (ha : ∀ here, a ≠ .destruct here)
    (hstep : s.step a = some s') : s'.alive = s.alive ∧ s'.loops = s.loops := by
  cases a with
  | newConnection errno ks =>
    obtain ⟨-, ⟨⟩⟩ := Option.ite_none_right_eq_some.mp hstep
    obtain ⟨-, -, hloops, -, -, -, halive, -⟩ := s.enlist_same errno
    rw [← halive, ← hloops]
    exact runInLoop_same
  | turn l ks =>
    obtain ⟨p, ps, -, -, rfl⟩ := turn_eq_some hstep
    exact call_same
  | act id a =>
    obtain ⟨e, -, -, -, -, -, rfl⟩ := act_eq_some hstep
    exact onConn_same
  | getNextLoop =>
    cases hstep
    obtain ⟨next, heq⟩ := s.getNextLoop_eq
    rw [heq]
    exact ⟨rfl, rfl⟩
  | destruct here => exact absurd rfl (ha here)
  | destroy id ks =>
    obtain ⟨here, -, rfl⟩ := destroy_eq_some hstep
    exact runInLoop_same
  | destructed =>
    obtain ⟨here, hlife, -, rfl⟩ := destructed_eq_some hstep
    exact ⟨(alive_of_destructing hlife).symm, rfl⟩

/-- Nothing brings a server back. -/
theorem alive_step {a : ServerStep} (hstep : s.step a = some s') (h : s'.alive = true) :
    s.alive = true := by
  by_cases ha : ∃ here, a = .destruct here
  · obtain ⟨here, rfl⟩ := ha
    exact (Option.ite_none_right_eq_some.mp hstep).1
  · rwa [(step_same (fun here heq => ha ⟨here, heq⟩) hstep).1] at h

/-- Every step of a server that is not destructed keeps all its connections at a stage. -/
theorem Sound.step {a : ServerStep} (h : s.Sound) (hok : s.StepOk a)
    (hstep : s.step a = some s') (halive : s'.alive = true) : s'.Sound := by
  have halive' := alive_step hstep halive
  cases a with
  | newConnection errno ks =>
    obtain ⟨-, ⟨⟩⟩ := Option.ite_none_right_eq_some.mp hstep
    exact h.newConnection halive' hok
  | turn l ks =>
    obtain ⟨p, ps, -, hq, rfl⟩ := turn_eq_some hstep
    exact h.turn halive' hq hok
  | act id a =>
    obtain ⟨e, he, hstate, -, -, hne, rfl⟩ := act_eq_some hstep
    exact h.act halive' he hstate hne (hok e he)
  | getNextLoop =>
    cases hstep
    exact h.getNextLoop
  | destruct here =>
    obtain ⟨-, ⟨⟩⟩ := Option.ite_none_right_eq_some.mp hstep
    cases halive
  | destroy id ks =>
    obtain ⟨here, hlife, -⟩ := destroy_eq_some hstep
    cases halive'.symm.trans (alive_of_destructing hlife)
  | destructed =>
    obtain ⟨here, hlife, -⟩ := destructed_eq_some hstep
    cases halive'.symm.trans (alive_of_destructing hlife)

/-! ## The work of the loops -/

section runs
variable {name ipPort : Bytes} {sslCtx enableEt writeCompleteCallback : Bool} {loops : ℕ}
  {as bs : List ServerStep}

theorem sound_create (hshort : ipPort.length ≤ 51) :
    (create name ipPort sslCtx enableEt writeCompleteCallback loops).Sound := by
  have hnone (j : ℕ) (e : Session) : ([] : List Session)[j]? ≠ some e := by simp
  refine ⟨⟨hshort, Nat.eq_zero_or_pos loops, ?_, rfl, fun j e he => absurd he (hnone j e),
    fun n j hmem => absurd hmem List.not_mem_nil, fun l p hp => absurd hp List.not_mem_nil,
    fun p hp => absurd hp List.not_mem_nil, rfl, rfl⟩, fun j e he => absurd he (hnone j e)⟩
  dsimp only [create]
  omega

theorem sound_of_run (h : s.Sound) (hok : Meets step StepOk s as) (hrun : run step s as = some s')
    (halive : s'.alive = true) : s'.Sound := by
  refine run_invariant (P := fun s => s.alive = true → s.Sound) ?_ (fun _ => h) hok hrun halive
  intro s a s' hs hok hstep halive
  exact (hs (alive_step hstep halive)).step hok hstep halive

end runs

end Server

end LibWebsocket.Tcp
