import LibWebsocket.ApiServer.Exclusion
import LibWebsocket.Lib.TimingWheel

/-! The buckets of a loop are a timing wheel, oldest bucket first. An entry is in it exactly while
its last activity is fewer ticks old than the wheel has buckets. -/
namespace LibWebsocket.ApiServer
open Lib TimingWheel

/-- The calls on a `ConnBucket`. -/
inductive WheelCall
  | pushBucket (e : ℕ)
  | updateBucket (e : ℕ)
  | onTimer
deriving DecidableEq, Repr

namespace WheelCall

/-- The entry that a call inserts. -/
def entry? : WheelCall → Option ℕ
  | pushBucket e | updateBucket e => some e
  | onTimer => none

/-- The ticks since the last insertion of `e`, behind one more call. -/
def age (e : ℕ) (o : Option ℕ) : WheelCall → Option ℕ
  | pushBucket e' | updateBucket e' => if e' = e then some 0 else o
  | onTimer => o.map (· + 1)

end WheelCall

/-- The `onTimer` calls since the last insertion of `e`, if there was one. -/
def ticksSince (e : ℕ) (calls : List WheelCall) : Option ℕ := calls.foldl (WheelCall.age e) none

/-- The call an action of the I/O thread makes. -/
def Action.wheelCall : Action → Option WheelCall
  | .pushBucket e => some (.pushBucket e)
  | .updateBucket e => some (.updateBucket e)
  | .onTimer => some .onTimer
  | _ => none

namespace State

def wheelStep (s : State) : WheelCall → Option State
  | .pushBucket e => some (s.pushBucket e)
  | .updateBucket e => some (s.updateBucket e)
  | .onTimer => s.onTimer

variable {s s' : State} {e e' : ℕ} {o : Option ℕ}

theorem insertBack_of_mem {bs : List (List ℕ)} (h : e ∈ bs.getLastD []) :
    insertBack e bs = bs := by
  induction bs with
  | nil => rfl
  | cons b bs ih =>
    cases bs with
    | nil => exact congrArg (· :: []) (List.insert_of_mem h)
    | cons b' bs => exact congrArg (b :: ·) (ih h)

theorem reverse_insertBack (e : ℕ) (bs : List (List ℕ)) :
    (insertBack e bs).reverse = touch e bs.reverse := by
  induction bs with
  | nil => rfl
  | cons b bs ih =>
    cases bs with
    | nil => rfl
    | cons b' bs =>
      rw [insertBack, List.reverse_cons, ih, List.reverse_cons (a := b)]
      cases h : (b' :: bs).reverse with
      | nil => simp at h
      | cons c cs => rfl

theorem insertBucket_buckets (h : (s.entries e).conn = true) :
    (s.insertBucket e).buckets = insertBack e s.buckets := by
  unfold insertBucket
  by_cases hmem : e ∈ s.buckets.getLastD []
  · rw [if_neg fun hc => hc.2 hmem, insertBack_of_mem hmem]
  · rw [if_pos ⟨h, hmem⟩]

theorem reverse_onTimer (h : s.onTimer = some s') :
    s'.buckets.reverse = TimingWheel.tick s.buckets.reverse := by
  unfold onTimer at h
  split at h
  · cases h
  · rename_i front rest hbs
    cases h
    rw [hbs]
    simp [TimingWheel.tick]

theorem onTimer_isSome (h : s.buckets ≠ []) : ∃ s', s.onTimer = some s' := by
  unfold onTimer
  cases hbs : s.buckets with
  | nil => exact absurd hbs h
  | cons front rest => exact ⟨_, rfl⟩

/-- The insertion of another entry changes nothing for `e`, whether its connection lives or not. -/
theorem tracks_insertBucket (h : Tracks s.buckets.reverse e o)
    (hconn : e' = e → (s.entries e).conn = true) :
    Tracks (s.insertBucket e').buckets.reverse e (if e' = e then some 0 else o) := by
  split_ifs with heq
  · rw [heq, insertBucket_buckets (hconn heq), reverse_insertBack]
    exact Tracks.touch_self
  · by_cases hlive : (s.entries e').conn = true
    · rw [insertBucket_buckets hlive, reverse_insertBack]
      exact h.touch_other heq
    · rw [insertBucket, if_neg fun hc => hlive hc.1]
      exact h

/-- One call keeps track of an entry, if its connection is alive when it is inserted. -/
theorem tracks_wheelStep {c : WheelCall} (h : Tracks s.buckets.reverse e o)
    (hconn : c.entry? = some e → (s.entries e).conn = true) (hs : s.wheelStep c = some s') :
    Tracks s'.buckets.reverse e (c.age e o) ∧ s'.buckets.length = s.buckets.length := by
  cases c with
  | pushBucket e' | updateBucket e' =>
    cases hs
    exact ⟨tracks_insertBucket h fun heq => hconn (congrArg some heq), length_insertBucket s e'⟩
  | onTimer =>
    rw [reverse_onTimer hs]
    exact ⟨h.tick, length_onTimer hs⟩

theorem mem_buckets_iff (h : Tracks s.buckets.reverse e o) :
    (∃ b ∈ s.buckets, e ∈ b) ↔ ∃ k < s.buckets.length, o = some k := by
  have hmem := h.mem_iff
  rw [List.length_reverse] at hmem
  simpa only [List.mem_reverse] using hmem

theorem modify_conn {f : Entry → Entry} (hf : ∀ x, (f x).conn = x.conn) (s : State) (e e' : ℕ) :
    ((s.modify e' f).entries e).conn = (s.entries e).conn := by
  by_cases heq : e = e'
  · subst heq
    simp only [modify, Function.update_self, hf]
  · simp only [modify, Function.update_of_ne heq]

theorem insertBucket_conn (s : State) (e e' : ℕ) :
    ((s.insertBucket e').entries e).conn = (s.entries e).conn := by
  unfold insertBucket
  split_ifs
  · exact modify_conn (f := Entry.acquire) (fun _ => rfl) s e e'
  · rfl

theorem wheelStep_conn {c : WheelCall} (hs : s.wheelStep c = some s') (e : ℕ) :
    (s'.entries e).conn = (s.entries e).conn := by
  cases c with
  | pushBucket e' =>
    cases hs
    exact insertBucket_conn s e e'
  | updateBucket e' =>
    cases hs
    exact insertBucket_conn s e e'
  | onTimer =>
    change s.onTimer = some s' at hs
    unfold onTimer at hs
    split at hs <;> cases hs
    rfl

theorem wheelStep_isSome (h : s.buckets ≠ []) (c : WheelCall) : ∃ s', s.wheelStep c = some s' := by
  cases c with
  | pushBucket e => exact ⟨_, rfl⟩
  | updateBucket e => exact ⟨_, rfl⟩
  | onTimer => exact onTimer_isSome h

/-- A sequence of calls keeps track of every entry. -/
theorem tracks_run {calls : List WheelCall} {age : ℕ → Option ℕ} (hs : s.buckets ≠ [])
    (halive : ∀ c ∈ calls, ∀ e, c.entry? = some e → (s.entries e).conn = true)
    (h : ∀ e, Tracks s.buckets.reverse e (age e)) :
    ∃ s', run wheelStep s calls = some s' ∧ s'.buckets.length = s.buckets.length ∧
      ∀ e, Tracks s'.buckets.reverse e (calls.foldl (WheelCall.age e) (age e)) := by
  induction calls generalizing s age with
  | nil => exact ⟨s, rfl, rfl, h⟩
  | cons c calls ih =>
    obtain ⟨hc, hcalls⟩ := List.forall_mem_cons.mp halive
    obtain ⟨s₁, h₁⟩ := wheelStep_isSome hs c
    have htracks := fun e => tracks_wheelStep (h e) (hc e) h₁
    have hlen : s₁.buckets.length = s.buckets.length := (htracks 0).2
    have hs₁ : s₁.buckets ≠ [] := by
      rw [← List.length_pos_iff, hlen]
      exact List.length_pos_of_ne_nil hs
    have halive₁ : ∀ c' ∈ calls, ∀ e, c'.entry? = some e → (s₁.entries e).conn = true := by
      intro c' hc' e he
      rw [wheelStep_conn h₁ e]
      exact hcalls c' hc' e he
    have hage : ∀ e, Tracks s₁.buckets.reverse e (c.age e (age e)) := fun e => (htracks e).1
    obtain ⟨s', hrun, hlen', h'⟩ := ih hs₁ halive₁ hage
    exact ⟨s', run_cons_eq_some.mpr ⟨s₁, h₁, hrun⟩, hlen'.trans hlen, h'⟩

end State

/-- On a wheel of `N` empty buckets all calls return, and behind them a bucket has an entry exactly
if it was inserted and fewer than `N` ticks have passed since it last was. -/
theorem wheel_exact (N : ℕ) (hN : 1 ≤ N) (s : State) (hs : s.buckets = List.replicate N [])
    (calls : List WheelCall)
    (halive : ∀ c ∈ calls, ∀ e, c.entry? = some e → (s.entries e).conn = true) :
    ∃ s', run State.wheelStep s calls = some s' ∧
      ∀ e, (∃ b ∈ s'.buckets, e ∈ b) ↔ ∃ k < N, ticksSince e calls = some k := by
  have hlen : s.buckets.length = N := by rw [hs, List.length_replicate]
  have hempty : ∀ e, Tracks s.buckets.reverse e none := by
    intro e
    refine tracks_of_empty fun b hb => ?_
    rw [List.mem_reverse, hs] at hb
    exact List.eq_of_mem_replicate hb
  obtain ⟨s', hrun, hlen', h⟩ := State.tracks_run (s := s)
    (List.ne_nil_of_length_pos (by omega)) halive hempty
  refine ⟨s', hrun, fun e => ?_⟩
  rw [State.mem_buckets_iff (h e), hlen', hlen]
  rfl

/-- An entry that is active every other tick, on a wheel of two buckets. -/
theorem wheel_exact_active :
    ∃ s', run State.wheelStep { State.create 2 0 with entries := fun _ => .create }
        [.pushBucket 0, .onTimer, .updateBucket 0, .onTimer] = some s' ∧
      ∀ e, (∃ b ∈ s'.buckets, e ∈ b) ↔
        ∃ k < 2, ticksSince e [.pushBucket 0, .onTimer, .updateBucket 0, .onTimer] = some k :=
  wheel_exact 2 (by decide) { State.create 2 0 with entries := fun _ => .create } rfl
    [.pushBucket 0, .onTimer, .updateBucket 0, .onTimer] fun _ _ _ _ => rfl

namespace State

variable {s s' : State} {e e' : ℕ} {o : Option ℕ} {a : Action}

/-- An action makes a call on the wheel or leaves it alone. -/
theorem step_wheelCall (hs : s.step a = some s') :
    (∃ c, a.wheelCall = some c ∧ s.wheelStep c = some s') ∨
      (a.wheelCall = none ∧ s'.buckets = s.buckets) := by
  cases a with
  | pushBucket e =>
    simp only [step] at hs
    split_ifs at hs
    exact .inl ⟨.pushBucket e, rfl, hs⟩
  | updateBucket e =>
    simp only [step] at hs
    split_ifs at hs
    exact .inl ⟨.updateBucket e, rfl, hs⟩
  | onTimer => exact .inl ⟨.onTimer, rfl, hs⟩
  | queueTask i e =>
    simp only [step] at hs
    split_ifs at hs
    obtain ⟨w, -, rfl⟩ := Option.map_eq_some_iff.mp hs
    exact .inr ⟨rfl, rfl⟩
  | asyncHttpHandler i a =>
    obtain ⟨w, -, hs⟩ := Option.bind_eq_some_iff.mp hs
    exact .inr ⟨rfl, buckets_asyncHttpHandler hs⟩
  | onHttpConnection =>
    cases hs
    exact .inr ⟨rfl, rfl⟩
  | lockEntry e | dropTemporary e | dtor e | closeConn e =>
    simp only [step] at hs
    split_ifs at hs <;> cases hs <;> exact .inr ⟨rfl, rfl⟩

theorem dtor_conn (x : Entry) : x.dtor.conn = x.conn := by
  unfold Entry.dtor
  split_ifs <;> rfl

theorem asyncHttpHandler_conn {i : ℕ} {a : HandlerStep} {w : Worker}
    (hs : s.asyncHttpHandler i a w = some s') (e : ℕ) :
    s'.next = s.next ∧ (s'.entries e).conn = (s.entries e).conn := by
  unfold asyncHttpHandler at hs
  split at hs <;> (try split_ifs at hs) <;> cases hs
  · exact ⟨rfl, rfl⟩
  · exact ⟨rfl, modify_conn (f := Entry.acquire) (fun _ => rfl) s e _⟩
  · exact ⟨rfl, rfl⟩
  · exact ⟨rfl, modify_conn (f := Entry.setLocked) (fun _ => rfl) s e _⟩
  · exact ⟨rfl, rfl⟩
  · exact ⟨rfl, rfl⟩
  · exact ⟨rfl, modify_conn (f := Entry.processHttpRequest) (fun _ => rfl) s e _⟩
  · exact ⟨rfl, modify_conn (f := Entry.release) (fun _ => rfl) s e _⟩

/-- Only `closeConn` ends the connection of an entry. -/
theorem step_conn (hs : s.step a = some s') (ha : a ≠ .closeConn e)
    (hconn : e < s.next → (s.entries e).conn = true) :
    e < s'.next → (s'.entries e).conn = true := by
  cases a with
  | onHttpConnection =>
    cases hs
    intro hlt
    by_cases heq : e = s.next
    · simp only [heq, Function.update_self]
      rfl
    · simp only [Function.update_of_ne heq]
      exact hconn (by dsimp only at hlt; omega)
  | pushBucket e' | updateBucket e' =>
    simp only [step] at hs
    split_ifs at hs
    cases hs
    intro hlt
    refine (insertBucket_conn s e e').trans (hconn ?_)
    simp only [pushBucket, updateBucket, insertBucket] at hlt
    split_ifs at hlt <;> exact hlt
  | onTimer =>
    simp only [step, onTimer] at hs
    split at hs <;> cases hs
    exact hconn
  | lockEntry e' =>
    simp only [step] at hs
    split_ifs at hs <;> cases hs
    · exact fun hlt => (modify_conn (f := Entry.acquire) (fun _ => rfl) s e e').trans (hconn hlt)
    · exact hconn
  | queueTask i e' =>
    simp only [step] at hs
    split_ifs at hs
    obtain ⟨w, -, rfl⟩ := Option.map_eq_some_iff.mp hs
    exact hconn
  | dropTemporary e' =>
    simp only [step] at hs
    split_ifs at hs
    cases hs
    exact fun hlt => (modify_conn (f := Entry.release) (fun _ => rfl) s e e').trans (hconn hlt)
  | asyncHttpHandler i a =>
    obtain ⟨w, -, hs⟩ := Option.bind_eq_some_iff.mp hs
    obtain ⟨hnext, heq⟩ := asyncHttpHandler_conn hs e
    rw [hnext, heq]
    exact hconn
  | dtor e' =>
    simp only [step] at hs
    split_ifs at hs
    cases hs
    exact fun hlt => (modify_conn dtor_conn s e e').trans (hconn hlt)
  | closeConn e' =>
    simp only [step] at hs
    split_ifs at hs
    cases hs
    have hne : e ≠ e' := fun heq => ha (by rw [heq])
    simp only [modify, Function.update_of_ne hne]
    exact hconn

/-- The I/O thread inserts only entries it has a reference to. -/
theorem temporary_of_wheelCall {c : WheelCall} (hs : s.step a = some s')
    (hc : a.wheelCall = some c) (he : c.entry? = some e) : e ∈ s.temporaries := by
  cases a <;> cases hc <;> cases he <;> simp only [step] at hs <;> split_ifs at hs with h <;> exact h

/-- A run of all threads keeps track of an entry whose connection it does not end. -/
theorem tracks_of_run {as : List Action} (hinv : s.Inv) (hbs : s.buckets ≠ [])
    (hconn : e < s.next → (s.entries e).conn = true) (h : Tracks s.buckets.reverse e o)
    (halive : ∀ a ∈ as, a ≠ .closeConn e) (hrun : run step s as = some s') :
    Tracks s'.buckets.reverse e ((as.filterMap Action.wheelCall).foldl (WheelCall.age e) o) ∧
      s'.buckets.length = s.buckets.length := by
  induction as generalizing s o with
  | nil =>
    cases hrun
    exact ⟨h, rfl⟩
  | cons a as ih =>
    obtain ⟨s₁, h₁, hrun⟩ := run_cons_eq_some.mp hrun
    obtain ⟨ha, has⟩ := List.forall_mem_cons.mp halive
    have hlen := length_buckets_step h₁
    have hbs₁ : s₁.buckets ≠ [] := by
      rw [← List.length_pos_iff, hlen]
      exact List.length_pos_of_ne_nil hbs
    have hstep := fun o h => ih (s := s₁) (o := o) (hinv.step hbs h₁) hbs₁
      (step_conn h₁ ha hconn) h has hrun
    rw [← hlen]
    obtain ⟨c, hc, hcall⟩ | ⟨hc, hsame⟩ := step_wheelCall h₁
    · rw [List.filterMap_cons_some hc, List.foldl_cons]
      refine hstep _ (tracks_wheelStep h (fun he => ?_) hcall).1
      exact hconn (hinv.lt_next (hinv.pos_of_temporary (temporary_of_wheelCall h₁ hc he)))
    · rw [List.filterMap_cons_none hc]
      exact hstep _ (by rw [hsame]; exact h)

/-- Whatever all threads do, an entry whose connection stays alive is in the wheel exactly while
fewer than `size` ticks have passed since its last activity. -/
theorem mem_buckets_iff_of_run {size workers : ℕ} (hsize : 1 ≤ size) {as : List Action}
    (halive : ∀ a ∈ as, a ≠ .closeConn e) (hrun : run step (create size workers) as = some s) :
    (∃ b ∈ s.buckets, e ∈ b) ↔
      ∃ k < size, ticksSince e (as.filterMap Action.wheelCall) = some k := by
  have hlen : (create size workers).buckets.length = size := List.length_replicate
  have hempty : Tracks (create size workers).buckets.reverse e none := by
    refine tracks_of_empty fun b hb => ?_
    rw [List.mem_reverse] at hb
    exact List.eq_of_mem_replicate hb
  obtain ⟨h, hsame⟩ := tracks_of_run (inv_create size workers)
    (List.ne_nil_of_length_pos (by omega)) (fun hlt => absurd hlt (Nat.not_lt_zero e)) hempty
    halive hrun
  rw [mem_buckets_iff h, hsame, hlen]
  rfl

end State

end LibWebsocket.ApiServer
