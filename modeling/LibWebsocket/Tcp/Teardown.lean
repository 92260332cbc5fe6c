import LibWebsocket.Tcp.Stages

/-! The destructor of a server. The connections outlive it, and their close callbacks are bound to
the server: a connection must not close in the destructor or behind it. -/
namespace LibWebsocket.Tcp.Server
open Lib

variable {s s' : Server} {id l : ℕ} {e : Session} {ks : List Call}

/-- As before, and the destructor is called in the loop of the server, when no connection is about
to close, and the callbacks that it makes leave the connections that are up in `kConnected`. -/
def TeardownOk (s : Server) : ServerStep → Prop
  | .destruct here => here = 0 ∧ ∀ r ∈ s.connections, ∀ e ∈ s.sessions[r.2]?,
    e.conn.state ≠ .kDisconnecting
  | .act id a => s.StepOk (.act id a) ∧ ∀ e ∈ s.sessions[id]?, s.life = .destructing e.loop →
    e.conn.state = .kConnected → (e.conn.perform a).state = .kConnected
  | a => s.StepOk a

instance (s : Server) : ∀ a, Decidable (s.TeardownOk a)
  | .destruct _ => inferInstanceAs (Decidable (_ ∧ ∀ r ∈ s.connections, ∀ e ∈ s.sessions[r.2]?, _))
  | .act id _ => inferInstanceAs (Decidable (_ ∧ ∀ e ∈ s.sessions[id]?, (_ → _ → _)))
  | .newConnection errno ks => inferInstanceAs (Decidable (s.StepOk (.newConnection errno ks)))
  | .turn l ks => inferInstanceAs (Decidable (s.StepOk (.turn l ks)))
  | .destroy id ks => inferInstanceAs (Decidable (s.StepOk (.destroy id ks)))
  | .getNextLoop | .destructed => .isTrue trivial

theorem TeardownOk.stepOk {a : ServerStep} (h : s.TeardownOk a) : s.StepOk a := by
  cases a with
  | destruct => trivial
  | act => exact h.1
  | newConnection | turn | getNextLoop | destroy | destructed => exact h

/-- The connection will not call its close callback any more. -/
def Silent (e : Session) : Prop :=
  e.conn.Closed ∨ e.conn.state = .kDisconnected ∧ e.removed = true

/-- The connection is up, and the destructor will come to it. -/
structure Ahead (s : Server) (id : ℕ) (e : Session) : Prop where
  opened : e.conn.Open
  state : e.conn.state = .kConnected
  life : s.life = .destructing e.loop
  listed : ∃ n, (n, id) ∈ s.connections

theorem Ahead.mono (h : s.Ahead id e) (hlife : s'.life = s.life)
    (hlisted : ∀ n, (n, id) ∈ s.connections → (n, id) ∈ s'.connections) : s'.Ahead id e :=
  ⟨h.opened, h.state, hlife.trans h.life, h.listed.imp hlisted⟩

/-- The destructor has been entered, and behind it nothing is left that would call the server. -/
structure Down (s : Server) : Prop where
  alive : s.alive = false
  dangling : s.dangling = false
  queue : ∀ l, ∀ p ∈ s.queue l, ∃ id, p = .connectDestroyed id
  settled : ∀ (id : ℕ) e, s.sessions[id]? = some e → Silent e ∨ s.Ahead id e

theorem Silent.state (h : Silent e) : e.conn.state = .kDisconnected := by
  rcases h with h | h
  · exact h.state
  · exact h.1

/-! ## Connections that are down -/

/-- What a connection without a channel can still be asked for does nothing to it. -/
theorem perform_disconnected {c : Conn} {a : Action} (hstate : c.state = .kDisconnected)
    (hpolled : a.polled = false) (hne : ∀ ks, a ≠ .connectEstablished ks) (hok : c.ActionOk a) :
    (c.perform a).state = .kDisconnected ∧ (c.perform a).trace = c.trace := by
  cases a with
  | connectEstablished ks => exact absurd rfl (hne ks)
  | handleRead | handleWrite | handleClose => cases hpolled
  | sendInLoop data w =>
    dsimp only [Conn.perform, Conn.sendInLoop]
    rw [if_pos hstate]
    exact ⟨hstate, rfl⟩
  | forceCloseInLoop errno =>
    dsimp only [Conn.perform, Conn.forceCloseInLoop]
    rw [if_neg (by simp [hstate])]
    exact ⟨hstate, rfl⟩
  | user k =>
    cases k with
    | send | shutdown | forceClose => simp [Conn.perform, Conn.call, hstate]
    | startRead => exact absurd hstate hok
    | stopRead =>
      dsimp only [Conn.perform, Conn.call, Conn.stopReadInLoop]
      split_ifs <;> exact ⟨hstate, rfl⟩
    | retrieve | setErrno => exact ⟨hstate, rfl⟩

/-- The callback of `connectDestroyed` finds a connection that is down, and leaves it so. -/
theorem calls_destroyed {c : Conn} (hok : c.destroyed.CallsOk ks) :
    (c.destroyed.calls ks).state = .kDisconnected :=
  foldl_invariant (P := fun c => c.state = .kDisconnected)
    (fun hstate hk => (perform_disconnected (a := .user _) hstate rfl nofun hk).1) rfl hok

theorem silent_connectDestroyed (hstate : e.conn.state ≠ .kConnected → Silent e)
    (hok : e.conn.state = .kConnected → e.conn.destroyed.CallsOk ks) :
    Silent { e with conn := e.conn.connectDestroyed ks, removed := true } := by
  refine Or.inr ⟨?_, rfl⟩
  dsimp only [Conn.connectDestroyed]
  split_ifs with hup
  · exact calls_destroyed (hok hup)
  · exact (hstate hup).state

/-! ## Steps behind the beginning of the destructor -/

theorem entry_of_setSession {j : ℕ} {e' : Session}
    (h : (s.setSession id e').sessions[j]? = some e) :
    j = id ∧ e = e' ∨ j ≠ id ∧ s.sessions[j]? = some e := by
  by_cases hj : j = id
  · subst hj
    have hlt : j < s.sessions.length := by
      obtain ⟨hlt, -⟩ := List.getElem?_eq_some_iff.mp h
      exact hlt.trans_eq List.length_set
    exact Or.inl ⟨rfl, Option.some.inj (h.symm.trans (List.getElem?_set_self hlt))⟩
  · exact Or.inr ⟨hj, (List.getElem?_set_ne (Ne.symm hj)).symm.trans h⟩

theorem mem_setQueue {p : Handed} {ps : List Handed} {l' : ℕ}
    (h : p ∈ (s.setQueue l ps).queue l') : p ∈ ps ∨ p ∈ s.queue l' := by
  dsimp only [setQueue] at h
  by_cases hl : l' = l
  · rw [hl, Function.update_self] at h
    exact Or.inl h
  · rw [Function.update_of_ne hl] at h
    exact Or.inr h

theorem Down.setSession {e' : Session} (h : s.Down)
    (he : Silent e' ∨ s.Ahead id e') : (s.setSession id e').Down where
  alive := h.alive
  dangling := h.dangling
  queue := h.queue
  settled j e₁ he₁ := by
    rcases entry_of_setSession he₁ with ⟨rfl, rfl⟩ | ⟨-, he₁⟩
    · exact he.imp_right (·.mono rfl fun _ hn => hn)
    · exact (h.settled j e₁ he₁).imp_right (·.mono rfl fun _ hn => hn)

/-- The others do not notice that a connection is destroyed. It may have been taken from the map
before. -/
theorem Down.connectDestroyed {rs : List (Bytes × ℕ)} (h : s.Down)
    (hrs : ∀ r ∈ s.connections, r.2 ≠ id → r ∈ rs) (hok : s.CallOk ks (.connectDestroyed id)) :
    ({ s with connections := rs }.call ks (.connectDestroyed id)).Down := by
  have hother (j : ℕ) (hj : j ≠ id) (e : Session) (he : s.sessions[j]? = some e) :
      Silent e ∨ Ahead { s with connections := rs } j e :=
    (h.settled j e he).imp_right (·.mono rfl fun _ hn => hrs _ hn hj)
  cases he : s.sessions[id]? with
  | none =>
    have hsame : { s with connections := rs }.call ks (.connectDestroyed id) =
        { s with connections := rs } := by
      rw [call, Handed.id, he]
    rw [hsame]
    refine ⟨h.alive, h.dangling, h.queue, fun j e₁ he₁ => hother j ?_ e₁ he₁⟩
    rintro rfl
    cases he.symm.trans he₁
  | some e =>
    rw [call_connectDestroyed (s := { s with connections := rs }) he]
    refine ⟨h.alive, h.dangling, h.queue, fun j e₁ he₁ => ?_⟩
    rcases entry_of_setSession he₁ with ⟨-, rfl⟩ | ⟨hj, he₁⟩
    · refine Or.inl (silent_connectDestroyed (fun hne => ?_) (hok e he))
      exact (h.settled id e he).resolve_right fun ha => hne ha.state
    · exact (hother j hj e₁ he₁).imp_right (·.mono rfl fun _ hn => hn)

/-- What the destructor posts to another loop is for a connection that is down. -/
theorem Down.destroy {here : ℕ} (h : s.Down) (hlife : s.life = .destructing here)
    (hok : s.CallOk ks (.connectDestroyed id)) : (s.destroy here id ks).Down := by
  have hrs (r : Bytes × ℕ) (hr : r ∈ s.connections) (hne : r.2 ≠ id) :
      r ∈ s.connections.filter (·.2 ≠ id) :=
    List.mem_filter.mpr ⟨hr, decide_eq_true hne⟩
  rw [Server.destroy, runInLoop]
  split_ifs with hhere
  · exact h.connectDestroyed hrs hok
  · refine ⟨h.alive, h.dangling, fun l p hp => ?_, fun j e he => ?_⟩
    · rcases mem_setQueue hp with hp | hp
      · rcases List.mem_append.mp hp with hp | hp
        · exact h.queue _ p hp
        · exact ⟨id, List.mem_singleton.mp hp⟩
      · exact h.queue l p hp
    · refine (h.settled j e he).imp_right fun ha => ha.mono rfl fun n hn => hrs _ hn ?_
      have hloop : (s.sessions[j]?.map Session.loop).getD 0 = here := by
        rw [show s.sessions[j]? = some e from he]
        exact Life.destructing.inj (ha.life.symm.trans hlife)
      rintro rfl
      exact hhere hloop.symm

theorem Down.turn {p : Handed} {ps : List Handed} (h : s.Down) (hq : s.queue l = p :: ps)
    (hok : s.StepOk (.turn l ks)) : ((s.setQueue l ps).call ks p).Down := by
  obtain ⟨id, rfl⟩ := h.queue l p (by rw [hq]; exact List.mem_cons_self)
  have hpop : (s.setQueue l ps).Down := by
    refine ⟨h.alive, h.dangling, fun l' p hp => ?_,
      fun j e he => (h.settled j e he).imp_right (·.mono rfl fun _ hn => hn)⟩
    rcases mem_setQueue hp with hp | hp
    · exact h.queue l p (by rw [hq]; exact List.mem_cons_of_mem _ hp)
    · exact h.queue l' p hp
  have hcall : s.CallOk ks (.connectDestroyed id) := hok _ (by rw [hq]; rfl)
  exact hpop.connectDestroyed (fun _ hr _ => hr) hcall

theorem Down.act {a : Action} (h : s.Down) (he : s.sessions[id]? = some e)
    (hremoved : e.removed = true → a.polled = false) (hne : ∀ ks, a ≠ .connectEstablished ks)
    (hok : s.TeardownOk (.act id a)) : (s.onConn id e (e.conn.perform a)).Down := by
  have hok' : e.conn.ActionOk a := hok.1 e he
  rcases h.settled id e he with (hclosed | ⟨hstate, hr⟩) | ha
  · have hstays := hclosed.perform hne hok'
    rw [onConn_of_count_eq (hstays.count_closeCallback.trans hclosed.count_closeCallback.symm)]
    exact h.setSession (Or.inl (Or.inl hstays))
  · obtain ⟨hstate', htrace⟩ := perform_disconnected hstate (hremoved hr) hne hok'
    rw [onConn_of_count_eq (by rw [htrace])]
    exact h.setSession (Or.inl (Or.inr ⟨hstate', hr⟩))
  · -- a call that a callback of the destructor makes
    have hstate := hok.2 e he ha.life ha.state
    have hopen : (e.conn.perform a).Open := by
      refine (Conn.Settled.perform (Or.inl ha.opened) hne hok').resolve_right fun hclosed => ?_
      cases hstate.symm.trans hclosed.state
    rw [onConn_of_count_eq (hopen.count_closeCallback.trans ha.opened.count_closeCallback.symm)]
    exact h.setSession (Or.inr ⟨hopen, hstate, ha.life, ha.listed⟩)

theorem Down.step {a : ServerStep} (h : s.Down) (hok : s.TeardownOk a)
    (hstep : s.step a = some s') : s'.Down := by
  cases a with
  | newConnection | destruct =>
    obtain ⟨halive, -⟩ := Option.ite_none_right_eq_some.mp hstep
    cases halive.symm.trans h.alive
  | turn l ks =>
    obtain ⟨p, ps, -, hq, rfl⟩ := turn_eq_some hstep
    exact h.turn hq hok
  | act id a =>
    obtain ⟨e, he, -, hremoved, -, hne, rfl⟩ := act_eq_some hstep
    exact h.act he hremoved hne hok
  | getNextLoop =>
    cases hstep
    obtain ⟨next, heq⟩ := s.getNextLoop_eq
    rw [heq]
    exact ⟨h.alive, h.dangling, h.queue,
      fun j e he => (h.settled j e he).imp_right (·.mono rfl fun _ hn => hn)⟩
  | destroy id ks =>
    obtain ⟨here, hlife, rfl⟩ := destroy_eq_some hstep
    exact h.destroy hlife hok
  | destructed =>
    obtain ⟨here, -, hnil, rfl⟩ := destructed_eq_some hstep
    refine ⟨rfl, h.dangling, h.queue, fun j e he => Or.inl ?_⟩
    refine (h.settled j e he).resolve_right fun ha => ?_
    obtain ⟨n, hn⟩ := ha.listed
    rw [hnil] at hn
    cases hn

/-! ## The beginning of the destructor -/

/-- Without other loops nothing is under way but `connectDestroyed`, and what is not closed is up. -/
theorem Sound.destruct (h : s.Sound) (hloops : s.loops = 0)
    (hstate : ∀ r ∈ s.connections, ∀ e ∈ s.sessions[r.2]?, e.conn.state ≠ .kDisconnecting) :
    Down { s with life := .destructing 0 } := by
  have hloop (id : ℕ) (e : Session) (he : s.sessions[id]? = some e) : e.loop = 0 :=
    Nat.le_zero.mp (hloops ▸ (h.entries id e he).2)
  refine ⟨rfl, h.dangling, fun l p hp => ?_, fun id e he => ?_⟩
  · obtain ⟨e, he⟩ : ∃ e, s.sessions[p.id]? = some e :=
      ⟨_, List.getElem?_eq_getElem (h.ahead l p hp)⟩
    obtain ⟨st, hat⟩ := h.stages _ e he
    have hmem : p ∈ st.pending p.id e.loop l := by
      rw [← hat.pending]
      exact List.mem_filter.mpr ⟨hp, by simp⟩
    cases st with
    | connecting | closing => exact absurd (hloop _ e he) (hat.loop (by simp))
    | opened | destroyed => cases hmem
    | removing =>
      rw [Stage.pending] at hmem
      split_ifs at hmem
      · exact ⟨_, List.mem_singleton.mp hmem⟩
      · cases hmem
  · obtain ⟨st, hat⟩ := h.stages _ e he
    have hconn := hat.conn
    cases st with
    | connecting | closing => exact absurd (hloop _ e he) (hat.loop (by simp))
    | opened =>
      have hmem := hat.listed.mpr rfl
      have hup := hconn.state.resolve_right (hstate _ hmem e he)
      exact Or.inr ⟨hconn, hup, congrArg Life.destructing (hloop _ e he).symm, _, hmem⟩
    | removing | destroyed => exact Or.inl (Or.inl hconn)

/-- The server is up, or nothing calls it. -/
def Safe (s : Server) : Prop := s.alive = true ∧ s.loops = 0 ∧ s.Sound ∨ s.Down

theorem Safe.step {a : ServerStep} (h : s.Safe) (hok : s.TeardownOk a)
    (hstep : s.step a = some s') : s'.Safe := by
  rcases h with ⟨halive, hloops, hsound⟩ | hdown
  · by_cases ha : ∃ here, a = .destruct here
    · obtain ⟨here, rfl⟩ := ha
      obtain ⟨rfl, hstate⟩ := hok
      obtain ⟨-, ⟨⟩⟩ := Option.ite_none_right_eq_some.mp hstep
      exact Or.inr (hsound.destruct hloops hstate)
    · obtain ⟨halive', hloops'⟩ := step_same (fun here heq => ha ⟨here, heq⟩) hstep
      have hup := halive'.trans halive
      exact Or.inl ⟨hup, hloops'.trans hloops, hsound.step hok.stepOk hstep hup⟩
  · exact Or.inr (hdown.step hok hstep)

section runs
variable {name ipPort : Bytes} {sslCtx enableEt writeCompleteCallback : Bool} {as : List ServerStep}

end runs

/-- With another loop a connection can close before it is destroyed there. -/
theorem dangling_of_loop : ∃ as : List ServerStep,
    Meets step StepOk (create [97] [98] false true false 1) as ∧
    (run step (create [97] [98] false true false 1) as).map Server.dangling = some true :=
  ⟨[.newConnection 0 [], .turn 1 [], .destruct 0, .destroy 0 [], .destructed,
    .act 0 (.handleClose 0)], by decide +kernel, by decide +kernel⟩

/-- A connection that `forceClose` has been called on closes behind the destructor, since
`connectDestroyed` leaves `kDisconnecting` as it is. -/
theorem dangling_of_forceClose : ∃ as : List ServerStep,
    Meets step StepOk (create [97] [98] false true false 0) as ∧
    (run step (create [97] [98] false true false 0) as).map Server.dangling = some true :=
  ⟨[.newConnection 0 [.forceClose], .destruct 0, .destroy 0 [], .destructed,
    .act 0 (.forceCloseInLoop 0)], by decide +kernel, by decide +kernel⟩

/-- The same, when the callback for one connection calls `forceClose` on another that is up. -/
theorem dangling_of_callback : ∃ as : List ServerStep,
    Meets step StepOk (create [97] [98] false true false 0) as ∧
    (run step (create [97] [98] false true false 0) as).map Server.dangling = some true :=
  ⟨[.newConnection 0 [], .newConnection 0 [], .destruct 0, .destroy 0 [],
    .act 1 (.user .forceClose), .destroy 1 [], .destructed, .act 1 (.forceCloseInLoop 0)],
    by decide +kernel, by decide +kernel⟩

end LibWebsocket.Tcp.Server
