import LibWebsocket.Lib.ByteOrder
import LibWebsocket.Lib.Run
import Mathlib.Data.List.Nodup
import Mathlib.Data.List.Perm.Basic
import Mathlib.Data.List.Range
import Mathlib.Data.Multiset.ZeroCons
import Mathlib.Logic.Function.Basic

/-! Remote procedure calls (`RpcChannel.cc`): the calls of any number of threads on one channel,
and two channels that call each other over a connection that hands each of them the messages of the
other, whole and in order. -/
namespace LibWebsocket.Rpc

open LibWebsocket.Lib

inductive MessageType
  | request | response | error
deriving DecidableEq, Repr

inductive ErrorCode
  | noError | wrongProto | noService | noMethod | invalidRequest | invalidResponse | timeout
deriving DecidableEq, Repr

/-- A field that is not set has its default. -/
structure RpcMessage where
  type : MessageType
  id : ℕ
  service : String := ""
  method : String := ""
  request : Bytes := []
  response : Bytes := []
  error : ErrorCode := .noError
deriving DecidableEq, Repr

/-- What `CallMethod` is called with. `response` and `done` say whether these pointers are set. -/
structure Call where
  service : String
  method : String
  request : Bytes
  response : Bool
  done : Bool
deriving DecidableEq, Repr

/-- A method has no answer to a request that it cannot parse. -/
abbrev Service := String → Option (Bytes → Option Bytes)

abbrev Services := String → Option Service

structure RpcChannel where
  /-- `id_`. -/
  id : ℕ
  /-- All calls so far, in the order in which they took their ids. -/
  called : List (ℕ × Call)
  /-- The calls of threads that have taken an id, and of those that have registered the call and
  not sent it yet. -/
  starting : List (ℕ × Call)
  registered : List (ℕ × Call)
  outstandings : List (ℕ × Call)
  /-- The requests whose `doneCallback` has not been called, with the response it will be given. -/
  serving : List (ℕ × Bytes)
  /-- The calls that have been taken out of `outstandings_`, with the response. -/
  finished : List (ℕ × Call × Bytes)
deriving DecidableEq, Repr

/-- What a request comes to: an error, or a response that a service gives sooner or later. -/
def dispatch (services : Option Services) (service method : String) (request : Bytes) :
    Except ErrorCode Bytes :=
  match services with
  | none => .error .noService
  | some services =>
    match services service with
    | none => .error .noService
    | some service =>
      match service method with
      | none => .error .noMethod
      | some method =>
        match method request with
        | none => .error .invalidRequest
        | some response => .ok response

def requestMessage (p : ℕ × Call) : RpcMessage :=
  { type := .request, id := p.1, service := p.2.service, method := p.2.method,
    request := p.2.request }

def responseMessage (p : ℕ × Bytes) : RpcMessage :=
  { type := .response, id := p.1, response := p.2 }

def errorMessage (id : ℕ) (error : ErrorCode) : RpcMessage :=
  { type := .response, id, error }

namespace RpcChannel

def create : RpcChannel := ⟨0, [], [], [], [], [], []⟩

/-- The channel behind a message, and what it sends. -/
def onRpcMessage (services : Option Services) (c : RpcChannel) (m : RpcMessage) :
    RpcChannel × List RpcMessage :=
  match m.type with
  | .response =>
    match c.outstandings.find? (·.1 = m.id) with
    | none => (c, [])
    | some out =>
      ({ c with outstandings := c.outstandings.erase out
                finished := c.finished ++ [(out.1, out.2, m.response)] }, [])
  | .request =>
    match dispatch services m.service m.method m.request with
    | .ok response => ({ c with serving := c.serving ++ [(m.id, response)] }, [])
    | .error e => (c, [errorMessage m.id e])
  | .error => (c, [])

/-- The calls whose `done` has been run, with the bytes that `response` was parsed from. -/
def ran (c : RpcChannel) : List (ℕ × Call × Bytes) :=
  c.finished.filter fun f => f.2.1.response && f.2.1.done

end RpcChannel

/-- What can happen at a channel: the three parts of `CallMethod`, a message, and the call of a
`doneCallback`. -/
inductive Event
  | start (call : Call)
  | register (p : ℕ × Call)
  | send (p : ℕ × Call)
  | receive (m : RpcMessage)
  | done (p : ℕ × Bytes)
deriving DecidableEq, Repr

def RpcChannel.step (services : Option Services) (c : RpcChannel) :
    Event → Option (RpcChannel × List RpcMessage)
  | .start call =>
    some ({ c with id := c.id + 1, called := c.called ++ [(c.id + 1, call)]
                   starting := c.starting ++ [(c.id + 1, call)] }, [])
  | .register p =>
    if p ∈ c.starting then
      some ({ c with starting := c.starting.erase p, registered := c.registered ++ [p]
                     outstandings := c.outstandings.filter (·.1 ≠ p.1) ++ [p] }, [])
    else none
  | .send p =>
    if p ∈ c.registered then
      some ({ c with registered := c.registered.erase p }, [requestMessage p])
    else none
  | .receive m => some (c.onRpcMessage services m)
  | .done p =>
    if p ∈ c.serving then
      some ({ c with serving := c.serving.erase p }, [responseMessage p])
    else none

/-- Two channels, and the messages on their way to each of them. -/
structure System where
  chan : Bool → RpcChannel
  inbox : Bool → List RpcMessage

namespace System

def create : System := ⟨fun _ => .create, fun _ => []⟩

/-- A message is received when it is the first on its way. -/
def takeMessage (s : System) (side : Bool) : Event → Option System
  | .receive m =>
    match s.inbox side with
    | [] => none
    | m' :: ms => if m = m' then some { s with inbox := Function.update s.inbox side ms } else none
  | _ => some s

def step (services : Bool → Option Services) (s : System) (a : Bool × Event) : Option System :=
  (s.takeMessage a.1 a.2).bind fun s =>
    ((s.chan a.1).step (services a.1) a.2).map fun r =>
      { chan := Function.update s.chan a.1 r.1
        inbox := Function.update s.inbox (!a.1) (s.inbox (!a.1) ++ r.2) }

end System

/-! ### One channel, whatever the other end sends -/

/-- The ways in which a step can go. -/
inductive Steps (services : Option Services) (c : RpcChannel) :
    Event → RpcChannel → List RpcMessage → Prop
  | start (call : Call) : Steps services c (.start call)
      { c with id := c.id + 1, called := c.called ++ [(c.id + 1, call)]
               starting := c.starting ++ [(c.id + 1, call)] } []
  | register {p : ℕ × Call} (hp : p ∈ c.starting) : Steps services c (.register p)
      { c with starting := c.starting.erase p, registered := c.registered ++ [p]
               outstandings := c.outstandings.filter (·.1 ≠ p.1) ++ [p] } []
  | send {p : ℕ × Call} (hp : p ∈ c.registered) : Steps services c (.send p)
      { c with registered := c.registered.erase p } [requestMessage p]
  | answered {m : RpcMessage} {out : ℕ × Call} (hm : m.type = .response)
      (hout : out ∈ c.outstandings) (hid : out.1 = m.id) : Steps services c (.receive m)
      { c with outstandings := c.outstandings.erase out
               finished := c.finished ++ [(out.1, out.2, m.response)] } []
  | stray {m : RpcMessage} (hm : m.type = .response) (hout : ∀ out ∈ c.outstandings, out.1 ≠ m.id) :
      Steps services c (.receive m) c []
  | served {m : RpcMessage} {response : Bytes} (hm : m.type = .request)
      (hok : dispatch services m.service m.method m.request = .ok response) :
      Steps services c (.receive m) { c with serving := c.serving ++ [(m.id, response)] } []
  | refused {m : RpcMessage} {e : ErrorCode} (hm : m.type = .request)
      (herr : dispatch services m.service m.method m.request = .error e) :
      Steps services c (.receive m) c [errorMessage m.id e]
  | ignored {m : RpcMessage} (hm : m.type = .error) : Steps services c (.receive m) c []
  | done {p : ℕ × Bytes} (hp : p ∈ c.serving) : Steps services c (.done p)
      { c with serving := c.serving.erase p } [responseMessage p]

variable {services : Option Services} {c c' p p' : RpcChannel} {e : Event}
  {out inP inC : List RpcMessage}

theorem steps_onRpcMessage (services : Option Services) (c : RpcChannel) (m : RpcMessage) :
    Steps services c (.receive m) (c.onRpcMessage services m).1
      (c.onRpcMessage services m).2 := by
  unfold RpcChannel.onRpcMessage
  split <;> rename_i hm
  · split <;> rename_i hfind
    · rw [List.find?_eq_none] at hfind
      exact .stray hm fun out hout => by simpa using hfind out hout
    · exact .answered hm (List.mem_of_find?_eq_some hfind) (by simpa using List.find?_some hfind)
  · split <;> rename_i hd
    · exact .served hm hd
    · exact .refused hm hd
  · exact .ignored hm

theorem steps_of_step (h : c.step services e = some (c', out)) : Steps services c e c' out := by
  cases e with
  | start call =>
    cases h
    exact .start call
  | register q =>
    obtain ⟨hq, ⟨⟩⟩ := Option.ite_none_right_eq_some.mp h
    exact .register hq
  | send q =>
    obtain ⟨hq, ⟨⟩⟩ := Option.ite_none_right_eq_some.mp h
    exact .send hq
  | receive m =>
    have hm := Option.some.inj h
    have hsteps := steps_onRpcMessage services c m
    rwa [hm] at hsteps
  | done q =>
    obtain ⟨hq, ⟨⟩⟩ := Option.ite_none_right_eq_some.mp h
    exact .done hq

/-- Every call is at one place, and the ids of the calls are those up to `id_`. -/
structure Accounted (c : RpcChannel) : Prop where
  perm : (c.starting ++ c.outstandings ++ c.finished.map fun f => (f.1, f.2.1)).Perm c.called
  ids : c.called.map (·.1) = List.range' 1 c.id

namespace Accounted

theorem create : Accounted .create := ⟨.refl _, rfl⟩

theorem nodup (h : Accounted c) : (c.called.map (·.1)).Nodup := by
  rw [h.ids]
  exact List.nodup_range'

theorem nodup_places (h : Accounted c) :
    (c.starting.map (·.1) ++ c.outstandings.map (·.1) ++ c.finished.map (·.1)).Nodup := by
  have := (h.perm.map (·.1)).nodup_iff.mpr h.nodup
  simpa [Function.comp_def] using this

theorem filter_outstandings (h : Accounted c) {q : ℕ × Call} (hq : q ∈ c.starting) :
    c.outstandings.filter (·.1 ≠ q.1) = c.outstandings := by
  rw [List.filter_eq_self]
  intro x hx
  have hdisj := (List.nodup_append.mp (List.nodup_append.mp h.nodup_places).1).2.2
  simpa using (hdisj q.1 (List.mem_map_of_mem hq) x.1 (List.mem_map_of_mem hx)).symm

theorem outstandings_inj (h : Accounted c) {x y : ℕ × Call} (hx : x ∈ c.outstandings)
    (hy : y ∈ c.outstandings) (hxy : x.1 = y.1) : x = y := by
  have hnd := (List.nodup_append.mp (List.nodup_append.mp h.nodup_places).1).2.1
  exact List.inj_on_of_nodup_map hnd hx hy hxy

theorem steps (h : Accounted c) (hstep : Steps services c e c' out) : Accounted c' := by
  cases hstep with
  | start call =>
    refine ⟨?_, ?_⟩
    · have := h.perm.append_right [(c.id + 1, call)]
      refine .trans ?_ this
      rw [List.perm_iff_count]
      intro x
      simp only [List.count_append]
      omega
    · simp only [List.map_append, h.ids, List.map_cons, List.map_nil]
      rw [List.range'_1_concat, Nat.add_comm 1]
  | register hp =>
    refine ⟨.trans ?_ h.perm, h.ids⟩
    rw [h.filter_outstandings hp, List.perm_iff_count]
    intro x
    have := (List.perm_cons_erase hp).count_eq x
    simp only [List.count_append, List.count_cons, List.count_nil] at this ⊢
    omega
  | answered hm hout hid =>
    refine ⟨.trans ?_ h.perm, h.ids⟩
    rw [List.perm_iff_count]
    intro x
    have := (List.perm_cons_erase hout).count_eq x
    simp only [List.map_append, List.map_cons, List.map_nil, Prod.mk.eta, List.count_append,
      List.count_cons, List.count_nil] at this ⊢
    omega
  | send | stray | served | refused | ignored | done => exact ⟨h.perm, h.ids⟩

end Accounted

/-- A channel whose messages come from anywhere. -/
def RpcChannel.next (services : Option Services) (c : RpcChannel) (e : Event) : Option RpcChannel :=
  (c.step services e).map (·.1)

theorem accounted_of_reachable (h : Reachable (RpcChannel.next services) .create c) :
    Accounted c := by
  refine h.invariant .create fun hc hstep => ?_
  obtain ⟨⟨c', out⟩, hc', rfl⟩ := Option.map_eq_some_iff.mp hstep
  exact hc.steps (steps_of_step hc')

/-- Whatever the other end sends, in whatever order the threads call: every call is at one place,
and its `done` runs at most once, after which the call is no longer outstanding. -/
theorem ran_at_most_once (h : Reachable (RpcChannel.next services) .create c) :
    (c.starting ++ c.outstandings ++ c.finished.map fun f => (f.1, f.2.1)).Perm c.called ∧
    (c.ran.map (·.1)).Nodup ∧
    ∀ f ∈ c.ran, (f.1, f.2.1) ∈ c.called ∧ ∀ out ∈ c.outstandings, out.1 ≠ f.1 := by
  have hacc := accounted_of_reachable h
  have hsub : c.ran.Sublist c.finished := List.filter_sublist
  obtain ⟨hnd, hfin, hdisj⟩ := List.nodup_append.mp hacc.nodup_places
  refine ⟨hacc.perm, (hsub.map _).nodup hfin, fun f hf => ⟨?_, fun out hout => ?_⟩⟩
  · refine hacc.perm.subset (List.mem_append_right _ ?_)
    exact List.mem_map_of_mem (hsub.subset hf)
  · exact hdisj _ (List.mem_append_right _ (List.mem_map_of_mem hout)) _
      (List.mem_map_of_mem (hsub.subset hf))

/-- The call is answered twice, and there is an answer to a call that was never made. -/
theorem ran_at_most_once_answered_twice : ∃ c, Reachable (RpcChannel.next none) .create c ∧
    c.finished.length = 1 ∧ (c.ran.map (·.1)).Nodup ∧
    ∀ f ∈ c.ran, (f.1, f.2.1) ∈ c.called ∧ ∀ out ∈ c.outstandings, out.1 ≠ f.1 := by
  obtain ⟨c, hrun, htest⟩ := exists_run_of_test (RpcChannel.next none) .create
    [.start ⟨"Echo", "Echo", [7], true, true⟩, .register (1, ⟨"Echo", "Echo", [7], true, true⟩),
      .send (1, ⟨"Echo", "Echo", [7], true, true⟩), .receive (responseMessage (1, [7])),
      .receive (responseMessage (1, [8])), .receive (responseMessage (2, [9]))]
    (fun c => c.finished.length = 1) (by decide +kernel)
  exact ⟨c, ⟨_, hrun⟩, of_decide_eq_true htest, (ran_at_most_once ⟨_, hrun⟩).2⟩

/-! ### Two channels -/

/-- What a caller finds in `response` when the call is answered: the error of a request that
cannot be served is not looked at. -/
def answer (services : Option Services) (call : Call) : Bytes :=
  match dispatch services call.service call.method call.request with
  | .ok response => response
  | .error _ => []

theorem answer_of_ok {q : ℕ × Call} {response : Bytes}
    (h : dispatch services (requestMessage q).service (requestMessage q).method
      (requestMessage q).request = .ok response) : answer services q.2 = response := by
  rw [requestMessage] at h
  rw [answer, h]

theorem answer_of_error {q : ℕ × Call} {error : ErrorCode}
    (h : dispatch services (requestMessage q).service (requestMessage q).method
      (requestMessage q).request = .error error) : answer services q.2 = [] := by
  rw [requestMessage] at h
  rw [answer, h]

/-- Where a call is between `register` and its response. -/
inductive Token
  | registered (q : ℕ × Call)
  | asked (m : RpcMessage)
  | served (q : ℕ × Bytes)
  | answered (m : RpcMessage)
deriving DecidableEq

/-- The token belongs to the call. -/
def Token.Of (services : Option Services) (q : ℕ × Call) : Token → Prop
  | .registered r => r = q
  | .asked m => m = requestMessage q
  | .served r => r = (q.1, answer services q.2)
  | .answered m => m.id = q.1 ∧ m.response = answer services q.2

/-- The tokens of the calls that one channel makes and the other serves, from what the one has
registered and the other has to answer. `inP` and `inC` are the messages on their way to the
other and back. -/
def tokens (registered : List (ℕ × Call)) (serving : List (ℕ × Bytes))
    (inP inC : List RpcMessage) : List Token :=
  registered.map .registered ++ (inP.filter (·.type = .request)).map .asked
    ++ serving.map .served ++ (inC.filter (·.type = .response)).map .answered

/-- Every outstanding call of `c` has one token, and there are no others. -/
structure Linked (services : Option Services) (c p : RpcChannel) (inP inC : List RpcMessage) :
    Prop where
  accounted : Accounted c
  rel : Multiset.Rel (Token.Of services) c.outstandings (tokens c.registered p.serving inP inC)
  finished : ∀ f ∈ c.finished, f.2.2 = answer services f.2.1

section Tokens

variable {calls : List (ℕ × Call)} {ts ts' rest : List Token} {t t' : Token}
  {registered registered' : List (ℕ × Call)} {serving serving' : List (ℕ × Bytes)}
  {inP' inC' : List RpcMessage} {m : RpcMessage}

/-- A call enters with a token of its own. -/
theorem rel_enter (h : Multiset.Rel (Token.Of services) calls ts) (hts' : ts'.Perm (t :: ts))
    {q : ℕ × Call} (hof : t.Of services q) :
    Multiset.Rel (Token.Of services) (calls ++ [q] : List _) ts' := by
  rw [Multiset.coe_eq_coe.mpr hts', ← Multiset.cons_coe,
    Multiset.coe_eq_coe.mpr (List.perm_append_singleton q calls), ← Multiset.cons_coe]
  exact h.cons hof

/-- A call moves on when its token is exchanged for another one of the same call. -/
theorem rel_move (h : Multiset.Rel (Token.Of services) calls ts) (hts : ts.Perm (t :: rest))
    (hts' : ts'.Perm (t' :: rest)) (hof : ∀ q, t.Of services q → t'.Of services q) :
    Multiset.Rel (Token.Of services) calls ts' := by
  rw [Multiset.coe_eq_coe.mpr hts, ← Multiset.cons_coe, Multiset.rel_cons_right] at h
  obtain ⟨q, qs, hq, hqs, hcalls⟩ := h
  rw [hcalls, Multiset.coe_eq_coe.mpr hts', ← Multiset.cons_coe]
  exact hqs.cons (hof q hq)

/-- A call leaves with its token. -/
theorem rel_leave (h : Multiset.Rel (Token.Of services) calls ts) (hts : ts.Perm (t :: rest)) :
    ∃ q ∈ calls, t.Of services q ∧ Multiset.Rel (Token.Of services) (calls.erase q) rest := by
  rw [Multiset.coe_eq_coe.mpr hts, ← Multiset.cons_coe, Multiset.rel_cons_right] at h
  obtain ⟨q, qs, hq, hqs, hcalls⟩ := h
  have hmem : q ∈ calls := by
    rw [← Multiset.mem_coe, hcalls]
    exact Multiset.mem_cons_self q qs
  have herase : (calls.erase q : Multiset (ℕ × Call)) = qs := by
    rw [← Multiset.cons_inj_right q, ← hcalls, Multiset.cons_coe, Multiset.coe_eq_coe]
    exact (List.perm_cons_erase hmem).symm
  exact ⟨q, hmem, hq, herase ▸ hqs⟩

theorem tokens_registered {q : ℕ × Call} (h : registered'.Perm (q :: registered)) :
    (tokens registered' serving inP inC).Perm
      (.registered q :: tokens registered serving inP inC) :=
  (((h.map _).append_right _).append_right _).append_right _

theorem tokens_served {q : ℕ × Bytes} (h : serving'.Perm (q :: serving)) :
    (tokens registered serving' inP inC).Perm
      (.served q :: tokens registered serving inP inC) :=
  (((h.map _).append_left _).append_right _).trans (List.perm_middle.append_right _)

theorem tokens_asked (hm : m.type = .request) (h : inP'.Perm (m :: inP)) :
    (tokens registered serving inP' inC).Perm
      (.asked m :: tokens registered serving inP inC) := by
  have hfilter := h.filter (·.type = .request)
  rw [List.filter_cons_of_pos (by simp [hm])] at hfilter
  exact ((((hfilter.map _).append_left _).trans List.perm_middle).append_right _).append_right _

theorem tokens_answered (hm : m.type = .response) (h : inC'.Perm (m :: inC)) :
    (tokens registered serving inP inC').Perm
      (.answered m :: tokens registered serving inP inC) := by
  have hfilter := h.filter (·.type = .response)
  rw [List.filter_cons_of_pos (by simp [hm])] at hfilter
  exact ((hfilter.map _).append_left _).trans List.perm_middle

theorem tokens_cons_inP (hm : m.type ≠ .request) :
    tokens registered serving (m :: inP) inC = tokens registered serving inP inC := by
  simp [tokens, hm]

theorem tokens_cons_inC (hm : m.type ≠ .response) :
    tokens registered serving inP (m :: inC) = tokens registered serving inP inC := by
  simp [tokens, hm]

theorem tokens_concat_inP (hm : m.type ≠ .request) :
    tokens registered serving (inP ++ [m]) inC = tokens registered serving inP inC := by
  simp [tokens, hm]

theorem tokens_concat_inC (hm : m.type ≠ .response) :
    tokens registered serving inP (inC ++ [m]) = tokens registered serving inP inC := by
  simp [tokens, hm]

end Tokens

/-- What a step takes from the messages on their way. -/
def taken : Event → List RpcMessage
  | .receive m => [m]
  | _ => []

/-- A step of the caller. -/
theorem Linked.own {services' : Option Services} (h : Linked services c p inP (taken e ++ inC))
    (hstep : Steps services' c e c' out) : Linked services c' p (inP ++ out) inC := by
  have hacc := h.accounted.steps hstep
  have hrel := h.rel
  cases hstep with
  | start call =>
    rw [List.append_nil]
    exact ⟨hacc, hrel, h.finished⟩
  | register hq =>
    rw [List.append_nil]
    refine ⟨hacc, ?_, h.finished⟩
    rw [h.accounted.filter_outstandings hq]
    exact rel_enter hrel (tokens_registered (List.perm_append_singleton ..)) rfl
  | send hq =>
    refine ⟨hacc, rel_move hrel (tokens_registered (List.perm_cons_erase hq))
      (tokens_asked rfl (List.perm_append_singleton ..)) ?_, h.finished⟩
    rintro q rfl
    rfl
  | answered hm hout hid =>
    rw [List.append_nil]
    obtain ⟨q, hq, ⟨hqid, hanswer⟩, hrest⟩ := rel_leave hrel (tokens_answered hm (.refl _))
    obtain rfl := h.accounted.outstandings_inj hout hq (hid.trans hqid)
    refine ⟨hacc, hrest, ?_⟩
    simp only [List.forall_mem_append, List.forall_mem_singleton]
    exact ⟨h.finished, hanswer⟩
  | stray hm hout =>
    -- the response has a token, so its call is outstanding
    obtain ⟨q, hq, ⟨hqid, -⟩, -⟩ := rel_leave hrel (tokens_answered hm (.refl _))
    exact absurd hqid.symm (hout q hq)
  | served hm | ignored hm =>
    rw [taken, List.singleton_append, tokens_cons_inC (by simp [hm])] at hrel
    rw [List.append_nil]
    exact ⟨hacc, hrel, h.finished⟩
  | refused hm =>
    rw [taken, List.singleton_append, tokens_cons_inC (by simp [hm])] at hrel
    refine ⟨hacc, ?_, h.finished⟩
    rw [tokens_concat_inP (by simp [errorMessage])]
    exact hrel
  | done =>
    refine ⟨hacc, ?_, h.finished⟩
    rw [tokens_concat_inP (by simp [responseMessage])]
    exact hrel

/-- A step of the channel that serves the calls. -/
theorem Linked.peer (h : Linked services c p (taken e ++ inP) inC)
    (hstep : Steps services p e p' out) : Linked services c p' inP (inC ++ out) := by
  have hrel := h.rel
  refine ⟨h.accounted, ?_, h.finished⟩
  cases hstep with
  | start | register =>
    rw [List.append_nil]
    exact hrel
  | send =>
    rw [tokens_concat_inC (by simp [requestMessage])]
    exact hrel
  | answered hm | stray hm | ignored hm =>
    rw [taken, List.singleton_append, tokens_cons_inP (by simp [hm])] at hrel
    rw [List.append_nil]
    exact hrel
  | served hm hok =>
    rw [List.append_nil]
    refine rel_move hrel (tokens_asked hm (.refl _))
      (tokens_served (List.perm_append_singleton ..)) ?_
    rintro q rfl
    exact Prod.ext rfl (answer_of_ok hok).symm
  | refused hm herr =>
    refine rel_move hrel (tokens_asked hm (.refl _))
      (tokens_answered rfl (List.perm_append_singleton ..)) ?_
    rintro q rfl
    exact ⟨rfl, (answer_of_error herr).symm⟩
  | done hq =>
    refine rel_move hrel (tokens_served (List.perm_cons_erase hq))
      (tokens_answered rfl (List.perm_append_singleton ..)) ?_
    rintro q rfl
    exact ⟨rfl, rfl⟩

/-! ### Runs -/

namespace System

variable {sv : Bool → Option Services} {s s' : System} {side : Bool} {a : Bool × Event}

theorem takeMessage_eq_some (h : s.takeMessage side e = some s') :
    ∃ ms, s.inbox side = taken e ++ ms ∧ s' = { s with inbox := Function.update s.inbox side ms } := by
  cases e with
  | receive m =>
    rw [takeMessage] at h
    split at h
    · cases h
    · next m' ms hbox =>
      obtain ⟨rfl, ⟨⟩⟩ := Option.ite_none_right_eq_some.mp h
      exact ⟨ms, hbox, rfl⟩
  | start | register | send | done =>
    cases h
    exact ⟨s.inbox side, rfl, by rw [Function.update_eq_self]⟩

theorem step_eq_some (h : s.step sv (side, e) = some s') : ∃ ms c' out,
    s.inbox side = taken e ++ ms ∧ Steps (sv side) (s.chan side) e c' out ∧
    s'.chan side = c' ∧ s'.chan (!side) = s.chan (!side) ∧
    s'.inbox side = ms ∧ s'.inbox (!side) = s.inbox (!side) ++ out := by
  obtain ⟨s₁, h₁, h⟩ := Option.bind_eq_some_iff.mp h
  obtain ⟨⟨c', out⟩, hstep, rfl⟩ := Option.map_eq_some_iff.mp h
  obtain ⟨ms, hbox, rfl⟩ := takeMessage_eq_some h₁
  exact ⟨ms, c', out, hbox, steps_of_step hstep, by simp⟩

/-- The calls of both sides are linked. -/
def Good (sv : Bool → Option Services) (s : System) : Prop :=
  ∀ side, Linked (sv !side) (s.chan side) (s.chan !side) (s.inbox !side) (s.inbox side)

theorem good_create : Good sv create := fun _ =>
  ⟨.create, .zero, by simp [create, RpcChannel.create]⟩

theorem Good.step (h : Good sv s) (hstep : s.step sv a = some s') : Good sv s' := by
  obtain ⟨who, e⟩ := a
  obtain ⟨ms, c', out, hbox, hsteps, hchan, hchan', hin, hin'⟩ := step_eq_some hstep
  have hown : Linked (sv !who) (s'.chan who) (s'.chan !who) (s'.inbox !who) (s'.inbox who) := by
    rw [hchan, hchan', hin, hin']
    exact (hbox ▸ h who).own hsteps
  have hpeer : Linked (sv who) (s'.chan !who) (s'.chan who) (s'.inbox who) (s'.inbox !who) := by
    rw [hchan, hchan', hin, hin']
    have := h !who
    rw [Bool.not_not, hbox] at this
    exact this.peer hsteps
  intro side
  cases who <;> cases side <;> assumption

theorem good_of_reachable (h : Reachable (step sv) create s) : Good sv s :=
  h.invariant good_create Good.step

theorem Good.own_answer (h : Good sv s) (side : Bool) : ∀ f ∈ (s.chan side).finished,
    (f.1, f.2.1) ∈ (s.chan side).called ∧ f.2.2 = answer (sv !side) f.2.1 := by
  intro f hf
  refine ⟨(h side).accounted.perm.subset (List.mem_append_right _ ?_), (h side).finished f hf⟩
  exact List.mem_map_of_mem hf

/-- A call that has been answered was made, and has the answer to its own request. -/
theorem finished_own_answer (h : Reachable (step sv) create s) (side : Bool) :
    ∀ f ∈ (s.chan side).finished,
      (f.1, f.2.1) ∈ (s.chan side).called ∧ f.2.2 = answer (sv !side) f.2.1 :=
  (good_of_reachable h).own_answer side

/-- A server with one method, which answers with the request. -/
def echo : Bool → Option Services
  | false => none
  | true => some fun service =>
    if service = "Echo" then some fun method => if method = "Echo" then some some else none else none

/-- The second call asks for a method that there is not, and its answer overtakes the first. -/
theorem finished_own_answer_overtaken : ∃ s, Reachable (step echo) create s ∧
    (s.chan false).finished.map (·.1) = [2, 1] ∧ ∀ f ∈ (s.chan false).finished,
      (f.1, f.2.1) ∈ (s.chan false).called ∧ f.2.2 = answer (echo true) f.2.1 := by
  obtain ⟨s, hrun, htest⟩ := exists_run_of_test (step echo) create
    [(false, .start ⟨"Echo", "Echo", [7], true, true⟩),
      (false, .start ⟨"Echo", "Ping", [8], true, true⟩),
      (false, .register (2, ⟨"Echo", "Ping", [8], true, true⟩)),
      (false, .register (1, ⟨"Echo", "Echo", [7], true, true⟩)),
      (false, .send (1, ⟨"Echo", "Echo", [7], true, true⟩)),
      (false, .send (2, ⟨"Echo", "Ping", [8], true, true⟩)),
      (true, .receive (requestMessage (1, ⟨"Echo", "Echo", [7], true, true⟩))),
      (true, .receive (requestMessage (2, ⟨"Echo", "Ping", [8], true, true⟩))),
      (true, .done (1, [7])), (false, .receive (errorMessage 2 .noMethod)),
      (false, .receive (responseMessage (1, [7])))]
    (fun s => (s.chan false).finished.map (·.1) = [2, 1]) (by decide +kernel)
  exact ⟨s, ⟨_, hrun⟩, of_decide_eq_true htest, finished_own_answer ⟨_, hrun⟩ false⟩

end System

/-! ### Every call is answered -/

def Event.isStart : Event → Bool
  | .start _ => true
  | _ => false

/-- How many steps a channel can take for the calls and the messages that it has. -/
def RpcChannel.pending (c : RpcChannel) (inbox : List RpcMessage) : ℕ :=
  5 * c.starting.length + 4 * c.registered.length + 2 * c.serving.length
    + inbox.length + 2 * inbox.countP (·.type = .request)

namespace System

variable {sv : Bool → Option Services} {s s' : System} {side : Bool} {a : Bool × Event}
  {as : List (Bool × Event)}

def pending (s : System) : ℕ :=
  (s.chan false).pending (s.inbox false) + (s.chan true).pending (s.inbox true)

theorem pending_eq (s : System) (side : Bool) : s.pending =
    (s.chan side).pending (s.inbox side) + (s.chan !side).pending (s.inbox !side) := by
  cases side with
  | false => rfl
  | true => exact Nat.add_comm ..

theorem pending_steps (h : Steps services c e c' out) (he : e.isStart = false)
    (inbox : List RpcMessage) :
    c'.pending inbox + (out.length + 2 * out.countP (·.type = .request))
      < c.pending (taken e ++ inbox) := by
  cases h with
  | start => cases he
  | register hq =>
    have := List.length_pos_of_mem hq
    simp only [RpcChannel.pending, taken, List.nil_append, List.length_append,
      List.length_erase_of_mem hq, List.length_singleton, List.length_nil, List.countP_nil]
    omega
  | send hq =>
    have := List.length_pos_of_mem hq
    simp only [RpcChannel.pending, taken, List.nil_append, requestMessage,
      List.length_erase_of_mem hq, List.length_singleton, List.countP_singleton, decide_true,
      if_true]
    omega
  | done hq =>
    have := List.length_pos_of_mem hq
    simp only [RpcChannel.pending, taken, List.nil_append, responseMessage,
      List.length_erase_of_mem hq, List.length_singleton, List.countP_singleton, reduceCtorEq,
      decide_false, Bool.false_eq_true, if_false]
    omega
  | answered hm | stray hm | ignored hm | served hm | refused hm =>
    simp only [RpcChannel.pending, taken, errorMessage, List.singleton_append, List.length_cons,
      List.length_append, List.length_nil, List.countP_cons, List.countP_nil, hm, reduceCtorEq,
      decide_false, decide_true, Bool.false_eq_true, if_false, if_true]
    omega

theorem pending_step (h : s.step sv a = some s') (ha : a.2.isStart = false) :
    s'.pending < s.pending := by
  obtain ⟨who, e⟩ := a
  obtain ⟨ms, c', out, hbox, hsteps, hchan, hchan', hin, hin'⟩ := step_eq_some h
  have := pending_steps hsteps ha ms
  rw [pending_eq s who, pending_eq s' who, hchan, hchan', hin, hin', hbox]
  have hout : (s.chan !who).pending (s.inbox (!who) ++ out) = (s.chan !who).pending (s.inbox !who)
      + (out.length + 2 * out.countP (·.type = .request)) := by
    simp only [RpcChannel.pending, List.length_append, List.countP_append]
    omega
  omega

theorem length_le_pending (has : ∀ a ∈ as, a.2.isStart = false)
    (hrun : run (step sv) s as = some s') : as.length + s'.pending ≤ s.pending := by
  induction as generalizing s with
  | nil =>
    cases hrun
    simp
  | cons a as ih =>
    obtain ⟨s₁, h₁, hrun⟩ := run_cons_eq_some.mp hrun
    obtain ⟨ha, has⟩ := List.forall_mem_cons.mp has
    have := pending_step h₁ ha
    have := ih has hrun
    rw [List.length_cons]
    omega

/-- Only new calls are possible. -/
def Quiet (sv : Bool → Option Services) (s : System) : Prop :=
  ∀ a, a.2.isStart = false → s.step sv a = none

/-- In a quiet system no call is under way and no message. -/
theorem quiet_iff : Quiet sv s ↔ ∀ side, (s.chan side).starting = [] ∧
    (s.chan side).registered = [] ∧ (s.chan side).serving = [] ∧ s.inbox side = [] := by
  constructor
  · intro h side
    refine ⟨?_, ?_, ?_, ?_⟩ <;> refine List.eq_nil_iff_forall_not_mem.mpr fun x hx => ?_
    · have := h (side, .register x) rfl
      simp [step, takeMessage, RpcChannel.step, hx] at this
    · have := h (side, .send x) rfl
      simp [step, takeMessage, RpcChannel.step, hx] at this
    · have := h (side, .done x) rfl
      simp [step, takeMessage, RpcChannel.step, hx] at this
    · obtain ⟨m, ms, hbox⟩ := List.exists_cons_of_ne_nil (List.ne_nil_of_mem hx)
      have := h (side, .receive m) rfl
      simp [step, takeMessage, RpcChannel.step, hbox] at this
  · rintro h ⟨side, e⟩ he
    obtain ⟨hstart, hreg, hserv, hin⟩ := h side
    cases e with
    | start => cases he
    | register | send | done => simp [step, takeMessage, RpcChannel.step, hstart, hreg, hserv]
    | receive => simp [step, takeMessage, hin]

theorem Good.answered (h : Good sv s) (hq : Quiet sv s) (side : Bool) :
    (s.chan side).outstandings = [] ∧ (s.chan side).finished.Perm
      ((s.chan side).called.map fun q => (q.1, q.2, answer (sv !side) q.2)) := by
  have hlinked := h side
  obtain ⟨hstart, hreg, -, hin⟩ := quiet_iff.mp hq side
  obtain ⟨-, -, hserv, hin'⟩ := quiet_iff.mp hq !side
  have hout : (s.chan side).outstandings = [] := by
    have hrel := hlinked.rel
    rw [hreg, hserv, hin, hin'] at hrel
    exact List.perm_nil.mp (Multiset.coe_eq_coe.mp (Multiset.rel_zero_right.mp hrel))
  refine ⟨hout, ?_⟩
  have hperm := hlinked.accounted.perm.map fun q => (q.1, q.2, answer (sv !side) q.2)
  rw [hstart, hout, List.nil_append, List.nil_append, List.map_map] at hperm
  refine .trans (.of_eq ?_) hperm
  symm
  refine (List.map_congr_left fun f hf => ?_).trans (List.map_id _)
  exact Prod.ext rfl (Prod.ext rfl (hlinked.finished f hf).symm)

/-- When no new calls are made, both channels stop after a bounded number of steps, in whatever
order they take them. Then every call has been answered once, with the answer to its own
request. -/
theorem all_answered (hs : Reachable (step sv) create s) (has : ∀ a ∈ as, a.2.isStart = false)
    (hrun : run (step sv) s as = some s') : as.length ≤ s.pending ∧
    (Quiet sv s' → ∀ side, (s'.chan side).outstandings = [] ∧
      (s'.chan side).finished.Perm
        ((s'.chan side).called.map fun q => (q.1, q.2, answer (sv !side) q.2))) := by
  refine ⟨Nat.le_of_add_right_le (length_le_pending has hrun), fun hq side => ?_⟩
  have hs' : Reachable (step sv) create s' := by
    obtain ⟨bs, hbs⟩ := hs
    exact ⟨bs ++ as, run_append_eq_some.mpr ⟨s, hbs, hrun⟩⟩
  exact (good_of_reachable hs').answered hq side

theorem all_answered_echo : ∃ s as s', Reachable (step echo) create s ∧
    run (step echo) s as = some s' ∧ Quiet echo s' ∧ as.length = 5 ∧ 5 ≤ s.pending ∧
    (s'.chan false).outstandings = [] ∧
    (s'.chan false).finished.Perm
      ((s'.chan false).called.map fun q => (q.1, q.2, answer (echo true) q.2)) := by
  obtain ⟨s', hrun, htest⟩ := exists_run_of_test (step echo) create
    ([(false, .start ⟨"Echo", "Echo", [7], true, true⟩)] ++
      [(false, .register (1, ⟨"Echo", "Echo", [7], true, true⟩)),
      (false, .send (1, ⟨"Echo", "Echo", [7], true, true⟩)),
      (true, .receive (requestMessage (1, ⟨"Echo", "Echo", [7], true, true⟩))),
      (true, .done (1, [7])), (false, .receive (responseMessage (1, [7])))])
    (fun s => ∀ side, (s.chan side).starting = [] ∧
      (s.chan side).registered = [] ∧ (s.chan side).serving = [] ∧ s.inbox side = [])
    (by decide +kernel)
  obtain ⟨s, hs, hrun⟩ := run_append_eq_some.mp hrun
  have hquiet : Quiet echo s' := quiet_iff.mpr (of_decide_eq_true htest)
  have hall := all_answered ⟨_, hs⟩ (by decide) hrun
  exact ⟨s, _, s', ⟨_, hs⟩, hrun, hquiet, rfl, hall.1, hall.2 hquiet false⟩

end System

end LibWebsocket.Rpc
