import LibWebsocket.Protobuf.Codec
import LibWebsocket.Rpc.Channel

/-! Two channels over a connection: what one `codec_` sends comes to the other in pieces, which cuts
the messages out of it again. As long as all frames fit, this is the system of channels that hand
each other messages. A connection that an error of the codec has shut down is left as it is then. -/
namespace LibWebsocket.Rpc

open LibWebsocket.Lib
open LibWebsocket.Protobuf (ProtobufCodecLite)

/-- Two channels with their input buffers, and the bytes on their way to each of them. -/
structure Wire where
  chan : Bool → RpcChannel
  stream : Bool → Bytes
  buffer : Bool → Bytes
  /-- `defaultErrorCallback` of this side has shut the connection down. -/
  shut : Bool → Bool
  /-- What this side has given to `codec_.send`. -/
  sent : Bool → List RpcMessage

def Event.isReceive : Event → Bool
  | .receive _ => true
  | _ => false

/-- A channel does something by itself, or so many bytes arrive. -/
inductive WireEvent
  | own (e : Event)
  | arrive (n : ℕ)
deriving DecidableEq, Repr

def WireEvent.isStart : WireEvent → Bool
  | .own e => e.isStart
  | .arrive _ => false

namespace Wire

def create : Wire := ⟨fun _ => .create, fun _ => [], fun _ => [], fun _ => false, fun _ => []⟩

variable (cod : ProtobufCodecLite RpcMessage) (services : Bool → Option Services)

/-- A connection that has been shut down sends nothing. -/
def send (w : Wire) (side : Bool) (ms : List RpcMessage) : Wire :=
  { w with
    stream :=
      if w.shut side then w.stream
      else Function.update w.stream (!side)
        (w.stream (!side) ++ (ms.map cod.fillEmptyBuffer).flatten)
    sent := Function.update w.sent side (w.sent side ++ ms) }

def act (w : Wire) (side : Bool) (r : RpcChannel × List RpcMessage) : Wire :=
  send cod { w with chan := Function.update w.chan side r.1 } side r.2

/-- The callbacks of `codec_`. -/
def handle (side : Bool) (w : Wire) : Protobuf.Call RpcMessage → Wire
  | .messageCallback m => w.act cod side ((w.chan side).onRpcMessage (services side) m)
  | .errorCallback _ => { w with shut := Function.update w.shut side true }

def step (w : Wire) : Bool × WireEvent → Option Wire
  | (side, .own e) =>
    if e.isReceive then none
    else ((w.chan side).step (services side) e).map (w.act cod side)
  | (side, .arrive n) =>
    if 0 < n ∧ n ≤ (w.stream side).length then
      (cod.onMessage (w.buffer side ++ (w.stream side).take n) []).map fun r =>
        r.2.foldl (handle cod services side) { w with
          stream := Function.update w.stream side ((w.stream side).drop n)
          buffer := Function.update w.buffer side r.1 }
    else none

variable {cod services} {w w' : Wire} {side : Bool}

/-- The ways in which a step can go. -/
theorem step_cases {e : WireEvent} (h : w.step cod services (side, e) = some w') :
    (∃ ev r, e = .own ev ∧ ev.isReceive = false ∧
      (w.chan side).step (services side) ev = some r ∧ w' = w.act cod side r) ∨
    (∃ n b calls, e = .arrive n ∧ 0 < n ∧ n ≤ (w.stream side).length ∧
      cod.onMessage (w.buffer side ++ (w.stream side).take n) [] = some (b, calls) ∧
      w' = calls.foldl (handle cod services side) { w with
        stream := Function.update w.stream side ((w.stream side).drop n)
        buffer := Function.update w.buffer side b }) := by
  cases e with
  | own ev =>
    obtain ⟨hev, h⟩ := Option.ite_none_left_eq_some.mp h
    obtain ⟨r, hr, rfl⟩ := Option.map_eq_some_iff.mp h
    exact Or.inl ⟨ev, r, rfl, Bool.eq_false_of_not_eq_true hev, hr, rfl⟩
  | arrive n =>
    obtain ⟨⟨hpos, hle⟩, h⟩ := Option.ite_none_right_eq_some.mp h
    obtain ⟨⟨b, calls⟩, hr, rfl⟩ := Option.map_eq_some_iff.mp h
    exact Or.inr ⟨n, b, calls, rfl, hpos, hle, hr, rfl⟩

/-- Bytes that are on their way can arrive. -/
theorem arrive_isSome {n : ℕ} (hpos : 0 < n) (hle : n ≤ (w.stream side).length) :
    (w.step cod services (side, .arrive n)).isSome := by
  rw [step, if_pos ⟨hpos, hle⟩, Option.isSome_map]
  exact ProtobufCodecLite.onMessageLoop_isSome (Nat.lt_succ_self _) _

theorem prefix_sent_act (w : Wire) (side : Bool) (r : RpcChannel × List RpcMessage) (j : Bool) :
    w.sent j <+: (w.act cod side r).sent j := by
  dsimp only [act, send]
  by_cases hj : j = side
  · rw [hj, Function.update_self]
    exact List.prefix_append ..
  · rw [Function.update_of_ne hj]

theorem prefix_sent_handle (calls : List (Protobuf.Call RpcMessage)) (w : Wire) (j : Bool) :
    w.sent j <+: (calls.foldl (handle cod services side) w).sent j := by
  induction calls generalizing w with
  | nil => exact List.prefix_rfl
  | cons call calls ih =>
    refine List.IsPrefix.trans ?_ (ih _)
    cases call with
    | messageCallback m => exact prefix_sent_act w side _ j
    | errorCallback e => exact List.prefix_rfl

/-- What has been sent stays sent. -/
theorem prefix_sent_step {a : Bool × WireEvent} (h : w.step cod services a = some w') (j : Bool) :
    w.sent j <+: w'.sent j := by
  obtain ⟨side, e⟩ := a
  rcases step_cases h with ⟨ev, r, -, -, -, rfl⟩ | ⟨n, b, calls, -, -, -, -, rfl⟩
  · exact prefix_sent_act w side r j
  · exact prefix_sent_handle calls { w with
      stream := Function.update w.stream side ((w.stream side).drop n)
      buffer := Function.update w.buffer side b } j

/-! ### Frames that fit -/

/-- The bytes that have not been taken are the frames of the messages on their way, but for those
that the codec has cut out and not handed over yet. -/
structure Carries (cod : ProtobufCodecLite RpcMessage) (cut : Bool → List RpcMessage) (w : Wire)
    (s : System) : Prop where
  chan : w.chan = s.chan
  bytes : ∀ side, ∃ ms, s.inbox side = cut side ++ ms ∧
    w.buffer side ++ w.stream side = (ms.map cod.fillEmptyBuffer).flatten
  waits : ∀ side, cod.poll (w.buffer side) = .wait
  sent : ∀ side, ∀ m ∈ s.inbox side, m ∈ w.sent (!side)
  up : ∀ side, w.shut side = false

namespace Carries

variable {cut : Bool → List RpcMessage} {s : System}

theorem act (h : Carries cod cut w s) (r : RpcChannel × List RpcMessage) :
    Carries cod cut (w.act cod side r) {
      chan := Function.update s.chan side r.1
      inbox := Function.update s.inbox (!side) (s.inbox (!side) ++ r.2) } := by
  have hstream : (w.act cod side r).stream = Function.update w.stream (!side)
      (w.stream (!side) ++ (r.2.map cod.fillEmptyBuffer).flatten) :=
    if_neg (by rw [h.up side]; exact Bool.false_ne_true)
  have hchan : (w.act cod side r).chan = Function.update s.chan side r.1 :=
    h.chan ▸ rfl
  refine ⟨hchan, fun j => ?_, h.waits, fun j m hm => ?_, h.up⟩
  · obtain ⟨ms, hbox, hbytes⟩ := h.bytes j
    rw [hstream]
    dsimp only
    by_cases hj : j = !side
    · subst hj
      refine ⟨ms ++ r.2, ?_, ?_⟩
      · rw [Function.update_self, hbox, List.append_assoc]
      · rw [Function.update_self, ← List.append_assoc, List.map_append, List.flatten_append]
        exact congrArg (· ++ _) hbytes
    · refine ⟨ms, ?_, ?_⟩
      · rw [Function.update_of_ne hj]
        exact hbox
      · rw [Function.update_of_ne hj]
        exact hbytes
  · dsimp only at hm
    by_cases hj : j = !side
    · subst hj
      rw [Function.update_self] at hm
      rw [Bool.not_not]
      refine (List.mem_append.mp hm).elim (fun hm => ?_) fun hm => ?_
      · have hsent := h.sent _ m hm
        rw [Bool.not_not] at hsent
        exact (prefix_sent_act w side r side).subset hsent
      · dsimp only [Wire.act, send]
        rw [Function.update_self]
        exact List.mem_append_right _ hm
    · rw [Function.update_of_ne hj] at hm
      exact (prefix_sent_act w side r _).subset (h.sent j m hm)

/-- The messages that the codec has cut out are received one after the other. -/
theorem handle_all {ms : List RpcMessage}
    (h : Carries cod (Function.update (fun _ => []) side ms) w s) :
    ∃ s', run (System.step services) s (ms.map fun m => (side, .receive m)) = some s' ∧
      Carries cod (fun _ => [])
        ((ms.map .messageCallback).foldl (handle cod services side) w) s' := by
  induction ms generalizing w s with
  | nil =>
    refine ⟨s, rfl, ?_⟩
    rwa [Function.update_eq_self_iff.mpr rfl] at h
  | cons m ms ih =>
    obtain ⟨rest, hbox, hbytes⟩ := h.bytes side
    rw [Function.update_self, List.cons_append] at hbox
    have htaken : Carries cod (Function.update (fun _ => []) side ms) w
        { s with inbox := Function.update s.inbox side (ms ++ rest) } := by
      refine ⟨h.chan, fun j => ?_, h.waits, fun j m' hm' => h.sent j m' ?_, h.up⟩
      · dsimp only
        by_cases hj : j = side
        · rw [hj, Function.update_self, Function.update_self]
          exact ⟨rest, rfl, hbytes⟩
        · rw [Function.update_of_ne hj, Function.update_of_ne hj]
          have hother := h.bytes j
          rwa [Function.update_of_ne hj] at hother
      · dsimp only at hm'
        by_cases hj : j = side
        · rw [hj, Function.update_self] at hm'
          rw [hj, hbox]
          exact List.mem_cons_of_mem _ hm'
        · rwa [Function.update_of_ne hj] at hm'
    have hstep : s.step services (side, .receive m) = some {
        chan := Function.update s.chan side ((s.chan side).onRpcMessage (services side) m).1
        inbox := Function.update (Function.update s.inbox side (ms ++ rest)) (!side)
          (Function.update s.inbox side (ms ++ rest) (!side) ++
            ((s.chan side).onRpcMessage (services side) m).2) } := by
      simp [System.step, System.takeMessage, hbox, RpcChannel.step]
    obtain ⟨s', hrun, hcarries⟩ := ih (htaken.act ((w.chan side).onRpcMessage (services side) m))
    refine ⟨s', run_cons_eq_some.mpr ⟨_, hstep, ?_⟩, hcarries⟩
    rwa [h.chan] at hrun

/-- Each step of the wire is a run of the channels that hand each other messages. -/
theorem step (hraw : cod.rawCb = none) (h : Carries cod (fun _ => []) w s)
    (hfit : ∀ side, ∀ m ∈ w.sent side, cod.Fit m) {a : Bool × WireEvent}
    (hstep : w.step cod services a = some w') :
    ∃ as s', run (System.step services) s as = some s' ∧ Carries cod (fun _ => []) w' s' := by
  obtain ⟨side, e⟩ := a
  rcases step_cases hstep with ⟨ev, r, -, hev, hr, rfl⟩ | ⟨n, b, calls, -, -, -, hcalls, rfl⟩
  · have htake : s.takeMessage side ev = some s := by
      cases ev with
      | receive m => cases hev
      | start | register | send | done => rfl
    rw [h.chan] at hr
    refine ⟨[(side, ev)], _, ?_, h.act r⟩
    rw [run_cons_eq_some]
    refine ⟨_, ?_, rfl⟩
    rw [System.step, htake]
    dsimp only [Option.bind_some]
    rw [hr]
    rfl
  · obtain ⟨ms, hbox, hbytes⟩ := h.bytes side
    rw [List.nil_append] at hbox
    have hms (m : RpcMessage) (hm : m ∈ ms) : cod.Fit m := by
      rw [← hbox] at hm
      exact hfit _ m (h.sent side m hm)
    rw [← List.take_append_drop n (w.stream side), ← List.append_assoc] at hbytes
    obtain ⟨ms₁, ms₂, b', rfl, honMessage, hrest, hwait⟩ :=
      ProtobufCodecLite.onMessage_cut _ hraw hms hbytes
    rw [honMessage] at hcalls
    cases hcalls
    have hcut : Carries cod (Function.update (fun _ => []) side ms₁) { w with
        stream := Function.update w.stream side ((w.stream side).drop n)
        buffer := Function.update w.buffer side b } s := by
      refine ⟨h.chan, fun j => ?_, fun j => ?_, h.sent, h.up⟩
      all_goals
        dsimp only
        by_cases hj : j = side
      · rw [hj, Function.update_self, Function.update_self, Function.update_self]
        exact ⟨ms₂, hbox, hrest⟩
      · rw [Function.update_of_ne hj, Function.update_of_ne hj, Function.update_of_ne hj]
        exact h.bytes j
      · rw [hj, Function.update_self]
        exact hwait
      · rw [Function.update_of_ne hj]
        exact h.waits j
    obtain ⟨s', hrun, hcarries⟩ := hcut.handle_all
    exact ⟨_, s', hrun, hcarries⟩

end Carries

theorem carries_create : Carries cod (fun _ => []) create .create where
  chan := rfl
  bytes _ := ⟨[], rfl, rfl⟩
  waits _ := by simp [create, ProtobufCodecLite.poll, Protobuf.kHeaderLen]
  sent _ _ hm := nomatch hm
  up _ := rfl

/-- As long as all frames fit, two channels over a connection are in a state that two channels can
be in that hand each other messages. -/
theorem refines (hraw : cod.rawCb = none) (h : Reachable (step cod services) create w)
    (hfit : ∀ side, ∀ m ∈ w.sent side, cod.Fit m) :
    ∃ s, Reachable (System.step services) .create s ∧ Carries cod (fun _ => []) w s := by
  refine h.invariant (P := fun w => (∀ side, ∀ m ∈ w.sent side, cod.Fit m) →
    ∃ s, Reachable (System.step services) .create s ∧ Carries cod (fun _ => []) w s)
    (fun _ => ⟨_, ⟨[], rfl⟩, carries_create⟩) ?_ hfit
  intro w a w' ih hstep hfit
  have hfit' (side : Bool) (m : RpcMessage) (hm : m ∈ w.sent side) : cod.Fit m :=
    hfit side m ((prefix_sent_step hstep side).subset hm)
  obtain ⟨s, ⟨as, has⟩, hcarries⟩ := ih hfit'
  obtain ⟨bs, s', hbs, hcarries'⟩ := hcarries.step hraw hfit' hstep
  exact ⟨s', ⟨as ++ bs, run_append_eq_some.mpr ⟨s, has, hbs⟩⟩, hcarries'⟩

/-- Only new calls are possible. -/
def Quiet (cod : ProtobufCodecLite RpcMessage) (services : Bool → Option Services) (w : Wire) :
    Prop := ∀ a, a.2.isStart = false → w.step cod services a = none

/-- Over a quiet connection no call is under way, and no bytes are. -/
theorem quiet_iff : w.Quiet cod services ↔ ∀ side, (w.chan side).starting = [] ∧
    (w.chan side).registered = [] ∧ (w.chan side).serving = [] ∧ w.stream side = [] := by
  constructor
  · intro h side
    refine ⟨?_, ?_, ?_, ?_⟩ <;> refine List.eq_nil_iff_forall_not_mem.mpr fun x hx => ?_
    · have := h (side, .own (.register x)) rfl
      simp [step, Event.isReceive, RpcChannel.step, hx] at this
    · have := h (side, .own (.send x)) rfl
      simp [step, Event.isReceive, RpcChannel.step, hx] at this
    · have := h (side, .own (.done x)) rfl
      simp [step, Event.isReceive, RpcChannel.step, hx] at this
    · have hsome : (w.step cod services (side, .arrive 1)).isSome :=
        arrive_isSome Nat.one_pos (List.length_pos_of_mem hx)
      rw [h (side, .arrive 1) rfl] at hsome
      cases hsome
  · rintro h ⟨side, e⟩ he
    obtain ⟨hstart, hreg, hserv, hstream⟩ := h side
    cases e with
    | own e =>
      cases e with
      | start => cases he
      | register | send | done =>
        simp [step, Event.isReceive, RpcChannel.step, hstart, hreg, hserv]
      | receive => rfl
    | arrive n =>
      refine if_neg ?_
      rw [hstream, List.length_nil]
      omega

/-- No part of a frame is left over. -/
theorem Carries.inbox_eq_nil {s : System} (hraw : cod.rawCb = none)
    (h : Carries cod (fun _ => []) w s) (hfit : ∀ side, ∀ m ∈ w.sent side, cod.Fit m)
    (hstream : w.stream side = []) : s.inbox side = [] := by
  obtain ⟨ms, hbox, hbytes⟩ := h.bytes side
  rw [hstream, List.append_nil] at hbytes
  rw [List.nil_append] at hbox
  cases ms with
  | nil => exact hbox
  | cons m ms =>
    have hm : cod.Fit m := hfit _ m (h.sent side m (by rw [hbox]; exact List.mem_cons_self))
    have hwait := h.waits side
    rw [hbytes, List.map_cons, List.flatten_cons, ProtobufCodecLite.poll_fit _ hraw hm] at hwait
    cases hwait

/-- As long as all frames fit, a call that has been answered has the answer to its own request, and
when only new calls are possible all have been answered. -/
theorem own_answers (hraw : cod.rawCb = none) (h : Reachable (step cod services) create w)
    (hfit : ∀ side, ∀ m ∈ w.sent side, cod.Fit m) (side : Bool) :
    (∀ f ∈ (w.chan side).finished, (f.1, f.2.1) ∈ (w.chan side).called ∧
      f.2.2 = answer (services !side) f.2.1) ∧
    (w.Quiet cod services → (w.chan side).outstandings = [] ∧ (w.chan side).finished.Perm
      ((w.chan side).called.map fun q => (q.1, q.2, answer (services !side) q.2))) := by
  obtain ⟨s, hs, hcarries⟩ := refines hraw h hfit
  have hgood := System.good_of_reachable hs
  rw [hcarries.chan]
  refine ⟨hgood.own_answer side, fun hquiet => hgood.answered ?_ side⟩
  refine System.quiet_iff.mpr fun j => ?_
  obtain ⟨hstart, hreg, hserv, hstream⟩ := quiet_iff.mp hquiet j
  rw [hcarries.chan] at hstart hreg hserv
  exact ⟨hstart, hreg, hserv, hcarries.inbox_eq_nil hraw hfit hstream⟩

/-- A frame that comes in one piece. -/
theorem onMessage_frame {m : RpcMessage} (hraw : cod.rawCb = none) (hm : cod.Fit m) :
    cod.onMessage (cod.fillEmptyBuffer m) [] = some ([], [.messageCallback m]) := by
  have hrun := ProtobufCodecLite.run_fit hraw (List.forall_mem_singleton.mpr hm)
  rw [List.map_singleton, List.flatten_singleton] at hrun
  exact ProtobufCodecLite.onMessageLoop_of_run (Nat.lt_succ_self _) hrun []

/-- A call from its start to its answer. -/
theorem exists_answered {call : Call} {response : Bytes} (hraw : cod.rawCb = none)
    (hrequest : cod.Fit (requestMessage (1, call)))
    (hresponse : cod.Fit (responseMessage (1, response)))
    (hdispatch : dispatch (services true) call.service call.method call.request = .ok response) :
    ∃ w, Reachable (step cod services) create w ∧ w.Quiet cod services ∧
      w.sent false = [requestMessage (1, call)] ∧ w.sent true = [responseMessage (1, response)] ∧
      (w.chan false).finished = [(1, call, response)] := by
  have hrun : ∃ w, run (step cod services) create [(false, .own (.start call)),
      (false, .own (.register (1, call))), (false, .own (.send (1, call))),
      (true, .arrive (cod.fillEmptyBuffer (requestMessage (1, call))).length),
      (true, .own (.done (1, response))),
      (false, .arrive (cod.fillEmptyBuffer (responseMessage (1, response))).length)] = some w ∧
      w.Quiet cod services ∧ w.sent false = [requestMessage (1, call)] ∧
      w.sent true = [responseMessage (1, response)] ∧
      (w.chan false).finished = [(1, call, response)] := by
    have hpos (m : RpcMessage) : 0 < (cod.fillEmptyBuffer m).length := by
      rw [cod.length_fillEmptyBuffer]
      exact Nat.add_pos_left (by decide) _
    have hserved (c : RpcChannel) : c.onRpcMessage (services true) (requestMessage (1, call)) =
        ({ c with serving := c.serving ++ [(1, response)] }, []) := by
      simp [RpcChannel.onRpcMessage, requestMessage, hdispatch]
    have hfinished (c : RpcChannel) (hout : c.outstandings = [(1, call)]) :
        c.onRpcMessage (services false) (responseMessage (1, response)) = ({ c with
          outstandings := [], finished := c.finished ++ [(1, call, response)] }, []) := by
      simp [RpcChannel.onRpcMessage, responseMessage, hout]
    simp [run, step, act, send, create, RpcChannel.step, RpcChannel.create, Event.isReceive, handle,
      onMessage_frame hraw hrequest, onMessage_frame hraw hresponse, hpos, quiet_iff, hserved,
      hfinished]
  obtain ⟨w, hw, hrest⟩ := hrun
  exact ⟨w, ⟨_, hw⟩, hrest⟩

/-- The RPC codec with a serialisation of its messages. -/
def rpcCodec (serializeToBuffer : RpcMessage → Bytes)
    (parseFromBuffer : Bytes → Option RpcMessage) : ProtobufCodecLite RpcMessage where
  tag := ProtobufCodecLite.rpcCodec.tag
  serializeToBuffer := serializeToBuffer
  parseFromBuffer := parseFromBuffer
  adler32 := ProtobufCodecLite.rpcCodec.adler32
  rawCb := none

theorem fit_rpcCodec {serializeToBuffer : RpcMessage → Bytes}
    {parseFromBuffer : Bytes → Option RpcMessage} {m : RpcMessage}
    (h : ProtobufCodecLite.rpcCodec.Fit (serializeToBuffer m))
    (hparse : parseFromBuffer (serializeToBuffer m) = some m) :
    (rpcCodec serializeToBuffer parseFromBuffer).Fit m :=
  ⟨⟨h.length, h.checksum⟩, h.le_max, hparse⟩

/-- Requests and responses of a length that fits, which stand for one call. -/
def longCodec : ProtobufCodecLite RpcMessage :=
  rpcCodec
    (fun m => if m.type = .request then ProtobufCodecLite.longMessage 1 63062
      else ProtobufCodecLite.longMessage 2 64419)
    (fun b => some (if b[1364]? = some 2 then responseMessage (1, [7])
      else requestMessage (1, ⟨"Echo", "Echo", [7], true, true⟩)))

theorem own_answers_echo : ∃ w, Reachable (step longCodec System.echo) create w ∧
    w.Quiet longCodec System.echo ∧ (w.chan false).finished.length = 1 ∧
    (w.chan false).outstandings = [] ∧
    (w.chan false).finished.Perm
      ((w.chan false).called.map fun q => (q.1, q.2, answer (System.echo true) q.2)) := by
  have hzero : (ProtobufCodecLite.longMessage 1 63062)[1364]? = some 0 := by
    rw [ProtobufCodecLite.longMessage,
      List.getElem?_append_left (by rw [List.length_replicate]; decide), List.getElem?_replicate]
    rfl
  have htwo : (ProtobufCodecLite.longMessage 2 64419)[1364]? = some 2 := by
    rw [ProtobufCodecLite.longMessage,
      List.getElem?_append_right (by rw [List.length_replicate]), List.length_replicate]
    rfl
  have hrequest : longCodec.Fit (requestMessage (1, ⟨"Echo", "Echo", [7], true, true⟩)) := by
    refine fit_rpcCodec ProtobufCodecLite.fit_longMessage_one (congrArg some (if_neg ?_))
    rw [if_pos (by decide), hzero]
    decide
  have hresponse : longCodec.Fit (responseMessage (1, [7])) := by
    refine fit_rpcCodec ProtobufCodecLite.fit_longMessage_two (congrArg some (if_pos ?_))
    rw [if_neg (by decide)]
    exact htwo
  have hdispatch : dispatch (System.echo true) "Echo" "Echo" [7] = .ok [7] := rfl
  obtain ⟨w, hw, hquiet, hsent, hsent', hfinished⟩ :=
    exists_answered rfl hrequest hresponse hdispatch
  have hfit (side : Bool) (m : RpcMessage) (hm : m ∈ w.sent side) : longCodec.Fit m := by
    cases side with
    | false =>
      rw [hsent] at hm
      exact List.mem_singleton.mp hm ▸ hrequest
    | true =>
      rw [hsent'] at hm
      exact List.mem_singleton.mp hm ▸ hresponse
  exact ⟨w, hw, hquiet, by rw [hfinished]; rfl, (own_answers rfl hw hfit false).2 hquiet⟩

/-! ### Frames that are refused -/

/-- The first frame that `side` has sent stands at the head of what the other side has not taken,
which has handed nothing over. -/
structure Unread (cod : ProtobufCodecLite RpcMessage) (side : Bool) (w : Wire) : Prop where
  bytes : w.buffer (!side) ++ w.stream (!side) = [] ∧ (w.sent side = [] ∨ w.shut side = true) ∨
    ∃ m x, (w.sent side).head? = some m ∧
      w.buffer (!side) ++ w.stream (!side) = cod.fillEmptyBuffer m ++ x
  serving : (w.chan !side).serving = []
  finished : (w.chan !side).finished = []

namespace Unread

/-- What the sender does. -/
theorem act_own (h : Unread cod side w) (r : RpcChannel × List RpcMessage) :
    Unread cod side (w.act cod side r) := by
  have hchan : (w.act cod side r).chan (!side) = w.chan (!side) :=
    Function.update_of_ne (Bool.not_ne_self side) ..
  have hsent : (w.act cod side r).sent side = w.sent side ++ r.2 := Function.update_self ..
  refine ⟨?_, by rw [hchan]; exact h.serving, by rw [hchan]; exact h.finished⟩
  rw [hsent]
  cases hshut : w.shut side with
  | true =>
    have hstream : (w.act cod side r).stream = w.stream := if_pos hshut
    rw [hstream]
    refine h.bytes.imp (fun hnone => ⟨hnone.1, Or.inr hshut⟩) ?_
    rintro ⟨m, x, hm, hx⟩
    exact ⟨m, x, by rw [List.head?_append, hm]; rfl, hx⟩
  | false =>
    have hstream : (w.act cod side r).stream (!side) =
        w.stream (!side) ++ (r.2.map cod.fillEmptyBuffer).flatten := by
      dsimp only [act, send]
      rw [if_neg (by rw [hshut]; exact Bool.false_ne_true), Function.update_self]
    have hbuffer : (w.act cod side r).buffer = w.buffer := rfl
    rw [hstream, hbuffer, ← List.append_assoc]
    rcases h.bytes with ⟨hnil, hnone⟩ | ⟨m, x, hm, hx⟩
    · have hnone : w.sent side = [] := hnone.resolve_right (by rw [hshut]; exact Bool.false_ne_true)
      rw [hnil, hnone, List.nil_append, List.nil_append]
      cases r.2 with
      | nil => exact Or.inl ⟨rfl, Or.inl rfl⟩
      | cons m ms => exact Or.inr ⟨m, (ms.map cod.fillEmptyBuffer).flatten, rfl, rfl⟩
    · refine Or.inr ⟨m, x ++ (r.2.map cod.fillEmptyBuffer).flatten, ?_, ?_⟩
      · rw [List.head?_append, hm]
        rfl
      · rw [hx, List.append_assoc]

/-- What the other side does by itself. -/
theorem act_other (h : Unread cod side w) {r : RpcChannel × List RpcMessage}
    (hserving : r.1.serving = []) (hfinished : r.1.finished = []) :
    Unread cod side (w.act cod (!side) r) := by
  have hchan : (w.act cod (!side) r).chan (!side) = r.1 := Function.update_self ..
  have hsent : (w.act cod (!side) r).sent side = w.sent side :=
    Function.update_of_ne (Bool.self_ne_not side) ..
  have hstream : (w.act cod (!side) r).stream (!side) = w.stream (!side) := by
    dsimp only [act, send]
    split_ifs
    · rfl
    · rw [Bool.not_not, Function.update_of_ne (Bool.not_ne_self side)]
  refine ⟨?_, by rw [hchan]; exact hserving, by rw [hchan]; exact hfinished⟩
  rw [hsent, hstream]
  exact h.bytes

theorem handle_own (h : Unread cod side w) (calls : List (Protobuf.Call RpcMessage)) :
    Unread cod side (calls.foldl (handle cod services side) w) := by
  induction calls generalizing w with
  | nil => exact h
  | cons call calls ih =>
    refine ih ?_
    cases call with
    | messageCallback m => exact h.act_own _
    | errorCallback e =>
      refine ⟨h.bytes.imp_left fun hnone => ⟨hnone.1, Or.inr ?_⟩, h.serving, h.finished⟩
      exact Function.update_self ..

/-- A channel that serves no request answers none. -/
theorem step_chan {services : Option Services} {c : RpcChannel} {e : Event}
    {r : RpcChannel × List RpcMessage} (hserving : c.serving = []) (hfinished : c.finished = [])
    (he : e.isReceive = false) (hstep : c.step services e = some r) :
    r.1.serving = [] ∧ r.1.finished = [] := by
  cases e with
  | start call =>
    cases hstep
    exact ⟨hserving, hfinished⟩
  | register p | send p =>
    obtain ⟨-, ⟨⟩⟩ := Option.ite_none_right_eq_some.mp hstep
    exact ⟨hserving, hfinished⟩
  | receive m => cases he
  | done p =>
    obtain ⟨hp, -⟩ := Option.ite_none_right_eq_some.mp hstep
    rw [hserving] at hp
    cases hp

/-- The codec of the other side does not get behind the first frame. -/
theorem arrive_other (h : Unread cod side w) (hfirst : ∀ m ∈ (w.sent side).head?, cod.Refused m)
    {n : ℕ} {b : Bytes} {calls : List (Protobuf.Call RpcMessage)} (hpos : 0 < n)
    (hle : n ≤ (w.stream !side).length)
    (hcalls : cod.onMessage (w.buffer (!side) ++ (w.stream !side).take n) [] = some (b, calls)) :
    Unread cod side (calls.foldl (handle cod services !side) { w with
      stream := Function.update w.stream (!side) ((w.stream !side).drop n)
      buffer := Function.update w.buffer (!side) b }) := by
  rcases h.bytes with ⟨hnil, -⟩ | ⟨m, x, hm, hx⟩
  · obtain ⟨-, hstream⟩ := List.append_eq_nil_iff.mp hnil
    rw [hstream, List.length_nil] at hle
    omega
  have hx' := hx
  rw [← List.take_append_drop n (w.stream !side), ← List.append_assoc] at hx'
  have hmoved : Unread cod side { w with
      stream := Function.update w.stream (!side) ((w.stream !side).drop n)
      buffer := Function.update w.buffer (!side)
        (w.buffer (!side) ++ (w.stream !side).take n) } := by
    refine ⟨Or.inr ⟨m, x, hm, ?_⟩, h.serving, h.finished⟩
    dsimp only
    rwa [Function.update_self, Function.update_self]
  rcases ProtobufCodecLite.onMessage_refused x (hfirst m hm) hx' with heq | heq
  all_goals
    rw [heq] at hcalls
    cases hcalls
  · exact hmoved
  · refine ⟨hmoved.bytes.imp_left fun hnone => ⟨hnone.1, hnone.2.imp_right fun hshut => ?_⟩,
      hmoved.serving, hmoved.finished⟩
    exact (Function.update_of_ne (Bool.self_ne_not side) ..).trans hshut

theorem step (h : Unread cod side w) (hfirst : ∀ m ∈ (w.sent side).head?, cod.Refused m)
    {a : Bool × WireEvent} (hstep : w.step cod services a = some w') : Unread cod side w' := by
  obtain ⟨who, e⟩ := a
  obtain rfl | rfl := Bool.eq_or_eq_not who side
  · rcases step_cases hstep with ⟨ev, r, -, -, -, rfl⟩ | ⟨n, b, calls, -, -, -, -, rfl⟩
    · exact h.act_own r
    · have hmoved : Unread cod who { w with
          stream := Function.update w.stream who ((w.stream who).drop n)
          buffer := Function.update w.buffer who b } := by
        refine ⟨?_, h.serving, h.finished⟩
        dsimp only
        rw [Function.update_of_ne (Bool.not_ne_self who),
          Function.update_of_ne (Bool.not_ne_self who)]
        exact h.bytes
      exact hmoved.handle_own calls
  · rcases step_cases hstep with ⟨ev, r, -, hev, hr, rfl⟩ | ⟨n, b, calls, -, hpos, hle, hcalls, rfl⟩
    · obtain ⟨hserving, hfinished⟩ := step_chan h.serving h.finished hev hr
      exact h.act_other hserving hfinished
    · exact h.arrive_other hfirst hpos hle hcalls

end Unread

/-- If the length of its first frame has a last byte of at least five, as every length below 256
has, the other side never hands over anything that a channel sends. -/
theorem never_served (h : Reachable (step cod services) create w)
    (hfirst : ∀ m ∈ (w.sent side).head?, cod.Refused m) :
    (w.chan !side).serving = [] ∧ (w.chan !side).finished = [] := by
  have hinv : Unread cod side w := by
    refine h.invariant (P := fun w => (∀ m ∈ (w.sent side).head?, cod.Refused m) →
      Unread cod side w) (fun _ => ⟨Or.inl ⟨rfl, Or.inl rfl⟩, rfl, rfl⟩) ?_ hfirst
    intro w a w' ih hstep hfirst
    have hfirst' (m : RpcMessage) (hm : m ∈ (w.sent side).head?) : cod.Refused m := by
      obtain ⟨ms, hms⟩ := prefix_sent_step hstep side
      refine hfirst m ?_
      rw [← hms, List.head?_append, hm]
      rfl
    exact (ih hfirst').step hfirst' hstep
  exact ⟨hinv.serving, hinv.finished⟩

theorem refused_of_lt {m : RpcMessage} (htag : cod.tag ≠ []) (hlt : (cod.body m).length < 256) :
    cod.Refused m := by
  have hmin := cod.kMinMessageLen_le m
  have hpos := List.length_pos_iff.mpr htag
  rw [ProtobufCodecLite.kMinMessageLen, Protobuf.kChecksumLen] at hmin
  rw [ProtobufCodecLite.Refused, Nat.mod_eq_of_lt hlt]
  omega

/-- The request of a call has arrived, and the connection is shut down for it. -/
theorem never_served_echo : ∃ w,
    Reachable (step (rpcCodec RpcMessage.request fun _ => none) System.echo) create w ∧
    (w.chan false).outstandings.length = 1 ∧ w.stream true = [] ∧ w.shut true = true ∧
    (w.chan true).serving = [] ∧ (w.chan true).finished = [] := by
  obtain ⟨w, hw, htest⟩ := exists_run_of_test
    (step (rpcCodec RpcMessage.request fun _ => none) System.echo) create
    [(false, .own (.start ⟨"Echo", "Echo", [7], true, true⟩)),
      (false, .own (.register (1, ⟨"Echo", "Echo", [7], true, true⟩))),
      (false, .own (.send (1, ⟨"Echo", "Echo", [7], true, true⟩))), (true, .arrive 5),
      (true, .arrive 8)]
    (fun w => (w.chan false).outstandings.length = 1 ∧ w.stream true = [] ∧ w.shut true = true ∧
      w.sent false = [requestMessage (1, ⟨"Echo", "Echo", [7], true, true⟩)]) (by decide +kernel)
  obtain ⟨hout, hstream, hshut, hsent⟩ := of_decide_eq_true htest
  have hfirst (m : RpcMessage) (hm : m ∈ (w.sent false).head?) :
      (rpcCodec RpcMessage.request fun _ => none).Refused m := by
    rw [hsent] at hm
    cases hm
    exact refused_of_lt nofun (by decide)
  exact ⟨w, ⟨_, hw⟩, hout, hstream, hshut, never_served ⟨_, hw⟩ hfirst⟩

end Wire

end LibWebsocket.Rpc
