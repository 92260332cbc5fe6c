import LibWebsocket.ApiServer.Entry

/-! A timeout and the processing of a request exclude each other. The reference count of an entry
is the number of its owners, and the flag of an entry is set before it is processed; an entry
whose count is zero can no longer be locked. -/
namespace LibWebsocket.ApiServer
open Lib

/-- What holds of every entry that was made. -/
structure Entry.Ok (x : Entry) : Prop where
  dtors : x.dtors = if x.useCount = 0 then 1 else 0
  expired : 0 < x.expired → x.useCount = 0 ∧ x.locked = false
  processed : 0 < x.processed → x.locked = true

namespace Entry.Ok

variable {x : Entry}

theorem create : Entry.create.Ok := by
  constructor <;> simp [Entry.create]

theorem acquire (h : x.Ok) (hx : 0 < x.useCount) : x.acquire.Ok where
  dtors := by
    have := h.dtors
    simp_all [Entry.acquire, Nat.pos_iff_ne_zero]
  expired he := absurd (h.expired he).1 (by omega)
  processed := h.processed

theorem release (h : x.Ok) (hx : 0 < x.useCount) : x.release.Ok where
  dtors := by
    have hd := h.dtors
    rw [if_neg (by omega)] at hd
    by_cases hone : x.useCount = 1
    · simp [Entry.release, hone, hd]
    · simp [Entry.release, hone, hd, show x.useCount - 1 ≠ 0 by omega]
  expired he := absurd (h.expired he).1 (by omega)
  processed := h.processed

theorem setLocked (h : x.Ok) (hx : 0 < x.useCount) : x.setLocked.Ok where
  dtors := h.dtors
  expired he := absurd (h.expired he).1 (by omega)
  processed _ := rfl

theorem processHttpRequest (h : x.Ok) (hx : x.locked = true) : x.processHttpRequest.Ok where
  dtors := h.dtors
  expired := h.expired
  processed _ := hx

theorem closeConn (h : x.Ok) : x.closeConn.Ok := ⟨h.dtors, h.expired, h.processed⟩

theorem dtor (h : x.Ok) (hx : x.useCount = 0) : x.dtor.Ok := by
  unfold Entry.dtor
  split_ifs with hc
  · exact ⟨h.dtors, fun _ => ⟨hx, by simpa using hc.2⟩, h.processed⟩
  · exact h

end Entry.Ok

namespace State

variable {s s' : State} {e : ℕ}

/-- The number of references to an entry. -/
def strong (s : State) (e : ℕ) : ℕ :=
  s.buckets.flatten.count e + s.temporaries.count e +
    s.workers.countP fun w => w.stage.holds e

structure Inv (s : State) : Prop where
  counted : ∀ e, (s.entries e).useCount = s.strong e
  fresh : ∀ e, s.next ≤ e → s.entries e = .unborn
  ok : ∀ e < s.next, (s.entries e).Ok
  dying : ∀ e ∈ s.dying, e < s.next ∧ (s.entries e).useCount = 0
  flagged : ∀ w ∈ s.workers, ∀ e, w.stage.flagged e = true → (s.entries e).locked = true

theorem Inv.lt_next (h : s.Inv) (he : 0 < (s.entries e).useCount) : e < s.next := by
  by_contra hle
  rw [h.fresh e (by omega)] at he
  exact absurd he (by decide)

theorem Inv.pos_of_temporary (h : s.Inv) (he : e ∈ s.temporaries) :
    0 < (s.entries e).useCount := by
  have hpos := List.count_pos_iff.mpr he
  rw [h.counted, strong]
  omega

theorem Inv.pos_of_holds (h : s.Inv) {w : Worker} (hw : w ∈ s.workers)
    (he : w.stage.holds e = true) : 0 < (s.entries e).useCount := by
  have hpos : 0 < s.workers.countP fun w => w.stage.holds e :=
    List.countP_pos_iff.mpr ⟨w, hw, he⟩
  rw [h.counted, strong]
  omega

/-- An entry that is owned is not on its way to the destructor. -/
theorem Inv.ne_of_dying (h : s.Inv) (hpos : 0 < (s.entries e).useCount) {e' : ℕ}
    (he' : e' ∈ s.dying) : e' ≠ e := by
  rintro rfl
  exact absurd (h.dying e' he').2 (by omega)

theorem inv_create (size workers : ℕ) : (create size workers).Inv where
  counted e := by
    have hcount : (List.replicate workers (⟨[], .idle⟩ : Worker)).countP
        (fun w => w.stage.holds e) = 0 := by simp [Stage.holds]
    simp [create, strong, Entry.unborn, hcount]
  fresh _ _ := rfl
  ok e he := absurd he (Nat.not_lt_zero e)
  dying e he := absurd he (by simp [create])
  flagged w hw e he := by
    obtain ⟨-, rfl⟩ := List.mem_replicate.mp hw
    cases he

/-- A step that changes no entry and no number of references. -/
theorem Inv.congr (h : s.Inv) (hnext : s'.next = s.next) (hentries : s'.entries = s.entries)
    (hstrong : ∀ e, s'.strong e = s.strong e) (hdying : s'.dying = s.dying)
    (hflag : ∀ w ∈ s'.workers, ∀ e, w.stage.flagged e = true →
      ∃ w' ∈ s.workers, w'.stage.flagged e = true) : s'.Inv where
  counted e := by rw [hentries, hstrong, h.counted]
  fresh := by
    rw [hentries, hnext]
    exact h.fresh
  ok := by
    rw [hentries, hnext]
    exact h.ok
  dying := by
    rw [hentries, hnext, hdying]
    exact h.dying
  flagged w hw e he := by
    obtain ⟨w', hw', he'⟩ := hflag w hw e he
    rw [hentries]
    exact h.flagged w' hw' e he'

/-- A step that changes one entry. -/
theorem Inv.update (h : s.Inv) {x : Entry} (he : e < s.next) (hx : x.Ok)
    (hlocked : (s.entries e).locked = true → x.locked = true) (hnext : s'.next = s.next)
    (hentries : s'.entries = Function.update s.entries e x) (hcount : x.useCount = s'.strong e)
    (hother : ∀ e', e' ≠ e → s'.strong e' = s.strong e')
    (hdying : ∀ e' ∈ s'.dying, e' = e ∧ x.useCount = 0 ∨ e' ≠ e ∧ e' ∈ s.dying)
    (hflag : ∀ w ∈ s'.workers, ∀ e', w.stage.flagged e' = true →
      e' = e ∧ x.locked = true ∨ ∃ w' ∈ s.workers, w'.stage.flagged e' = true) : s'.Inv where
  counted e' := by
    rcases eq_or_ne e' e with rfl | hne
    · rw [hentries, Function.update_self, hcount]
    · rw [hentries, Function.update_of_ne hne, hother e' hne, h.counted]
  fresh e' he' := by
    rw [hentries, Function.update_of_ne (by omega)]
    exact h.fresh e' (by omega)
  ok e' he' := by
    rcases eq_or_ne e' e with rfl | hne
    · rwa [hentries, Function.update_self]
    · rw [hentries, Function.update_of_ne hne]
      exact h.ok e' (by omega)
  dying e' he' := by
    rw [hentries, hnext]
    rcases hdying e' he' with ⟨rfl, hzero⟩ | ⟨hne, hmem⟩
    · rw [Function.update_self]
      exact ⟨he, hzero⟩
    · rw [Function.update_of_ne hne]
      exact h.dying e' hmem
  flagged w hw e' he' := by
    rw [hentries]
    rcases eq_or_ne e' e with rfl | hne
    · rw [Function.update_self]
      rcases hflag w hw e' he' with ⟨-, hl⟩ | ⟨w', hw', hf⟩
      · exact hl
      · exact hlocked (h.flagged w' hw' e' hf)
    · rw [Function.update_of_ne hne]
      rcases hflag w hw e' he' with ⟨rfl, -⟩ | ⟨w', hw', hf⟩
      · exact absurd rfl hne
      · exact h.flagged w' hw' e' hf

/-- A worker's step trades its reference. -/
theorem strong_setWorker {i : ℕ} {w v : Worker} (hw : s.workers[i]? = some w) (e : ℕ) :
    (s.setWorker i v).strong e + (if w.stage.holds e then 1 else 0) =
      s.strong e + if v.stage.holds e then 1 else 0 := by
  obtain ⟨hi, hget⟩ := List.getElem?_eq_some_iff.mp hw
  simp only [strong, setWorker, List.countP_set hi, hget]
  by_cases hold : w.stage.holds e = true
  · have hpos : 0 < s.workers.countP fun w => w.stage.holds e :=
      List.countP_pos_iff.mpr ⟨w, List.mem_of_getElem? hw, hold⟩
    rw [if_pos hold]
    omega
  · rw [if_neg hold]
    omega

theorem flagged_setWorker {i : ℕ} {w' : Worker} {v : Worker} {e : ℕ}
    (hv : v ∈ (s.setWorker i w').workers) (he : v.stage.flagged e = true) :
    w'.stage.flagged e = true ∨ ∃ w ∈ s.workers, w.stage.flagged e = true := by
  rcases List.mem_or_eq_of_mem_set hv with h | rfl
  · exact .inr ⟨v, h, he⟩
  · exact .inl he

theorem count_insertBack {bs : List (List ℕ)} (hbs : bs ≠ []) (he : e ∉ bs.getLastD [])
    (e' : ℕ) : (insertBack e bs).flatten.count e' =
      bs.flatten.count e' + if e = e' then 1 else 0 := by
  induction bs with
  | nil => exact absurd rfl hbs
  | cons b bs ih =>
    cases bs with
    | nil =>
      have hb : e ∉ b := he
      simp [insertBack, List.insert_of_not_mem hb, List.count_cons]
    | cons b' bs =>
      have hrest := ih (List.cons_ne_nil _ _) he
      have hcons : (insertBack e (b :: b' :: bs)).flatten = b ++ (insertBack e (b' :: bs)).flatten :=
        rfl
      rw [hcons, List.count_append, hrest, List.flatten_cons (l := b), List.count_append,
        Nat.add_assoc]

/-- Every bucket list of a run has the size of the wheel. -/
theorem length_insertBack (e : ℕ) (bs : List (List ℕ)) : (insertBack e bs).length = bs.length := by
  induction bs with
  | nil => rfl
  | cons b bs ih =>
    cases bs with
    | nil => rfl
    | cons b' bs => simpa [insertBack] using ih

theorem Inv.acquire (h : s.Inv) (he : 0 < (s.entries e).useCount) (hnext : s'.next = s.next)
    (hentries : s'.entries = (s.modify e Entry.acquire).entries)
    (hstrong : ∀ e', s'.strong e' = s.strong e' + if e = e' then 1 else 0)
    (hdying : s'.dying = s.dying)
    (hflag : ∀ w ∈ s'.workers, ∀ e', w.stage.flagged e' = true →
      ∃ w' ∈ s.workers, w'.stage.flagged e' = true) : s'.Inv := by
  have hlt := h.lt_next he
  refine h.update (x := (s.entries e).acquire) hlt ((h.ok e hlt).acquire he) id hnext hentries
    ?_ ?_ ?_ ?_
  · rw [hstrong, if_pos rfl, ← h.counted]
    rfl
  · intro e' hne
    rw [hstrong, if_neg hne.symm, Nat.add_zero]
  · intro e' he'
    rw [hdying] at he'
    exact .inr ⟨h.ne_of_dying he he', he'⟩
  · intro w hw e' he'
    exact .inr (hflag w hw e' he')

theorem Inv.release (h : s.Inv) (he : 0 < (s.entries e).useCount) (hnext : s'.next = s.next)
    (hentries : s'.entries = (s.modify e Entry.release).entries)
    (hstrong : ∀ e', s'.strong e' + (if e = e' then 1 else 0) = s.strong e')
    (hdying : s'.dying = (s.release e).dying)
    (hflag : ∀ w ∈ s'.workers, ∀ e', w.stage.flagged e' = true →
      ∃ w' ∈ s.workers, w'.stage.flagged e' = true) : s'.Inv := by
  have hlt := h.lt_next he
  refine h.update (x := (s.entries e).release) hlt ((h.ok e hlt).release he) id hnext hentries
    ?_ ?_ ?_ ?_
  · have hs := hstrong e
    rw [if_pos rfl, ← h.counted] at hs
    simp only [Entry.release]
    omega
  · intro e' hne
    have hs := hstrong e'
    rwa [if_neg hne.symm, Nat.add_zero] at hs
  · intro e' he'
    rw [hdying, State.release] at he'
    simp only at he'
    split_ifs at he' with hone
    · rcases List.mem_cons.mp he' with rfl | hmem
      · exact .inl ⟨rfl, by simp [Entry.release, hone]⟩
      · exact .inr ⟨h.ne_of_dying he hmem, hmem⟩
    · exact .inr ⟨h.ne_of_dying he he', he'⟩
  · intro w hw e' he'
    exact .inr (hflag w hw e' he')

theorem Inv.insertBucket (h : s.Inv) (he : e ∈ s.temporaries) (hbs : s.buckets ≠ []) :
    (s.insertBucket e).Inv := by
  unfold State.insertBucket
  split_ifs with hc
  · refine h.acquire (h.pos_of_temporary he) rfl rfl (fun e' => ?_) rfl
      fun w hw e' he' => ⟨w, hw, he'⟩
    have hcount := count_insertBack hbs hc.2 e'
    simp only [strong, State.modify]
    omega
  · exact h

theorem Inv.onTimer (h : s.Inv) (hs : s.onTimer = some s') : s'.Inv := by
  unfold State.onTimer at hs
  split at hs
  · cases hs
  · rename_i front rest hbs
    cases hs
    refine h.congr rfl rfl (fun e => ?_) rfl fun w hw e' he' => ⟨w, hw, he'⟩
    simp only [strong, hbs, List.flatten_append, List.flatten_cons, List.flatten_nil,
      List.append_nil, List.count_append]
    omega

theorem Inv.onHttpConnection (h : s.Inv) (hs : s.step .onHttpConnection = some s') : s'.Inv := by
  cases hs
  have hnew : s.strong s.next = 0 := by
    rw [← h.counted, h.fresh s.next (Nat.le_refl _)]
    rfl
  have hstrong : ∀ e, State.strong { s with
      next := s.next + 1
      entries := Function.update s.entries s.next .create
      temporaries := s.next :: s.temporaries } e =
        s.strong e + if s.next = e then 1 else 0 := by
    intro e
    simp only [strong, List.count_cons, beq_iff_eq]
    omega
  constructor
  · intro e
    rw [hstrong]
    rcases eq_or_ne e s.next with rfl | hne
    · simp [hnew, Entry.create]
    · simp only [Function.update_of_ne hne, if_neg hne.symm, h.counted, Nat.add_zero]
  · intro e he
    simp only at he ⊢
    rw [Function.update_of_ne (by omega)]
    exact h.fresh e (by omega)
  · intro e he
    simp only at he ⊢
    rcases eq_or_ne e s.next with rfl | hne
    · rw [Function.update_self]
      exact Entry.Ok.create
    · rw [Function.update_of_ne hne]
      exact h.ok e (by omega)
  · intro e he
    obtain ⟨hlt, hzero⟩ := h.dying e he
    simp only
    rw [Function.update_of_ne (by omega)]
    exact ⟨by omega, hzero⟩
  · intro w hw e he
    have hpos := h.pos_of_holds hw (Stage.holds_of_flagged he)
    have hlt := h.lt_next hpos
    simp only
    rw [Function.update_of_ne (by omega)]
    exact h.flagged w hw e he

section Handler
variable {i : ℕ} {queue queue' : List ℕ} {st st' : Stage}

/-- A worker's step that changes neither its references nor any entry. -/
theorem Inv.setWorker (h : s.Inv) (hw : s.workers[i]? = some ⟨queue, st⟩)
    (hholds : ∀ e, st'.holds e = st.holds e)
    (hflag : ∀ e, st'.flagged e = true → st.flagged e = true) :
    (s.setWorker i ⟨queue', st'⟩).Inv := by
  refine h.congr rfl rfl (fun e => ?_) rfl fun v hv e he => ?_
  · have hstrong := strong_setWorker (v := ⟨queue', st'⟩) hw e
    simp only [hholds] at hstrong
    omega
  · rcases flagged_setWorker hv he with hnew | hold
    · exact ⟨_, List.mem_of_getElem? hw, hflag e hnew⟩
    · exact hold

/-- The flagged entries are as before when the worker goes to a stage that flags none. -/
theorem flagged_setWorker_of_not (hst : ∀ e, st'.flagged e = false) :
    ∀ v ∈ (s.setWorker i ⟨queue', st'⟩).workers, ∀ e, v.stage.flagged e = true →
      ∃ w ∈ s.workers, w.stage.flagged e = true := by
  intro v hv e he
  rcases flagged_setWorker hv he with hnew | hold
  · rw [hst] at hnew
    cases hnew
  · exact hold

theorem Inv.lockWeakEntry (h : s.Inv) (hw : s.workers[i]? = some ⟨queue, .started e⟩)
    (he : 0 < (s.entries e).useCount) :
    ((s.modify e Entry.acquire).setWorker i ⟨queue, .gotEntry e⟩).Inv := by
  refine h.acquire he rfl rfl (fun e' => ?_) rfl (flagged_setWorker_of_not (s := s) fun _ => rfl)
  have hstrong := strong_setWorker (v := ⟨queue, .gotEntry e⟩) hw e'
  simp only [Stage.holds, decide_eq_true_eq, Bool.false_eq_true, if_false, Nat.add_zero] at hstrong
  exact hstrong

/-- A worker changes the entry it owns and goes on owning it; from then on the entry is flagged. -/
theorem Inv.modifyHeld (h : s.Inv) {f : Entry → Entry} (hw : s.workers[i]? = some ⟨queue, st⟩)
    (hst : st.holds e = true) (hholds : ∀ e', st'.holds e' = st.holds e')
    (hflag : ∀ e', st'.flagged e' = true → e' = e) (hok : (f (s.entries e)).Ok)
    (hcount : (f (s.entries e)).useCount = (s.entries e).useCount)
    (hlocked : (f (s.entries e)).locked = true) :
    ((s.modify e f).setWorker i ⟨queue, st'⟩).Inv := by
  have hpos := h.pos_of_holds (List.mem_of_getElem? hw) hst
  have hstrong : ∀ e', ((s.modify e f).setWorker i ⟨queue, st'⟩).strong e' = s.strong e' := by
    intro e'
    have hset := strong_setWorker (v := ⟨queue, st'⟩) hw e'
    rw [hholds] at hset
    exact Nat.add_right_cancel hset
  refine h.update (e := e) (h.lt_next hpos) hok (fun _ => hlocked) rfl rfl ?_
    (fun e' _ => hstrong e') ?_ ?_
  · rw [hstrong, hcount, h.counted]
  · intro e' he'
    exact .inr ⟨h.ne_of_dying hpos he', he'⟩
  · intro v hv e' he'
    rcases flagged_setWorker (s := s) hv he' with hnew | hold
    · exact .inl ⟨hflag e' hnew, hlocked⟩
    · exact .inr hold

/-- The flag is set before anything is processed. -/
theorem Inv.setLocked (h : s.Inv) (hw : s.workers[i]? = some ⟨queue, .gotEntry e⟩) :
    ((s.modify e Entry.setLocked).setWorker i ⟨queue, .gotLocked e⟩).Inv := by
  have hst : (Stage.gotEntry e).holds e = true := by simp [Stage.holds]
  have hpos := h.pos_of_holds (List.mem_of_getElem? hw) hst
  have hok := (h.ok e (h.lt_next hpos)).setLocked hpos
  refine h.modifyHeld hw hst (fun _ => rfl) (fun e' he' => ?_) hok rfl rfl
  simpa [Stage.flagged, eq_comm] using he'

theorem Inv.processHttpRequest (h : s.Inv) (hw : s.workers[i]? = some ⟨queue, .gotConn e⟩) :
    ((s.modify e Entry.processHttpRequest).setWorker i ⟨queue, .finished e⟩).Inv := by
  have hst : (Stage.gotConn e).holds e = true := by simp [Stage.holds]
  have hmem := List.mem_of_getElem? hw
  have hlocked := h.flagged _ hmem e (by simp [Stage.flagged])
  have hok := (h.ok e (h.lt_next (h.pos_of_holds hmem hst))).processHttpRequest hlocked
  refine h.modifyHeld hw hst (fun _ => rfl) (fun e' he' => ?_) hok rfl hlocked
  simpa [Stage.flagged, eq_comm] using he'

theorem Inv.releaseEntry (h : s.Inv) (hw : s.workers[i]? = some ⟨queue, .finished e⟩) :
    ((s.release e).setWorker i ⟨queue, .idle⟩).Inv := by
  have hpos := h.pos_of_holds (e := e) (List.mem_of_getElem? hw) (by simp [Stage.holds])
  refine h.release hpos rfl rfl (fun e' => ?_) rfl
    (flagged_setWorker_of_not (s := s) fun _ => rfl)
  have hstrong := strong_setWorker (v := ⟨queue, .idle⟩) hw e'
  simp only [Stage.holds, decide_eq_true_eq, Bool.false_eq_true, if_false, Nat.add_zero] at hstrong
  exact hstrong

theorem Inv.asyncHttpHandler (h : s.Inv) {a : HandlerStep} {w : Worker}
    (hw : s.workers[i]? = some w) (hs : s.asyncHttpHandler i a w = some s') : s'.Inv := by
  unfold State.asyncHttpHandler at hs
  split at hs
  · cases hs
    exact h.setWorker hw (fun _ => rfl) (fun _ => id)
  · split_ifs at hs with hpos
    · cases hs
      exact h.lockWeakEntry hw hpos
    · cases hs
      exact h.setWorker hw (fun _ => rfl) (fun _ => id)
  · cases hs
    exact h.setLocked hw
  · cases hs
    split_ifs
    · exact h.setWorker hw (fun _ => rfl) (fun _ => id)
    · exact h.setWorker hw (fun _ => rfl) (fun _ => id)
  · cases hs
    exact h.processHttpRequest hw
  · cases hs
    exact h.releaseEntry hw
  · cases hs

end Handler

theorem Inv.queueTask (h : s.Inv) {i : ℕ} {w : Worker} (hw : s.workers[i]? = some w) (q : List ℕ) :
    (s.setWorker i { w with queue := q }).Inv :=
  h.setWorker hw (fun _ => rfl) (fun _ => id)

/-- A change of an entry by nobody who owns it. -/
theorem Inv.modifyEntry (h : s.Inv) {f : Entry → Entry} {ds : List ℕ} (he : e < s.next)
    (hok : (f (s.entries e)).Ok) (hcount : (f (s.entries e)).useCount = (s.entries e).useCount)
    (hlocked : (f (s.entries e)).locked = (s.entries e).locked) (hds : ∀ e' ∈ ds, e' ∈ s.dying) :
    Inv { s.modify e f with dying := ds } := by
  refine h.update (e := e) he hok hlocked.trans rfl rfl (hcount.trans (h.counted e))
    (fun _ _ => rfl) ?_ fun w hw e' he' => .inr ⟨w, hw, he'⟩
  intro e' he'
  rcases eq_or_ne e' e with rfl | hne
  · exact .inl ⟨rfl, hcount.trans (h.dying e' (hds e' he')).2⟩
  · exact .inr ⟨hne, hds e' he'⟩

theorem Inv.dtor (h : s.Inv) (he : e ∈ s.dying) :
    Inv { s.modify e Entry.dtor with dying := s.dying.erase e } := by
  obtain ⟨hlt, hzero⟩ := h.dying e he
  have hcount : (s.entries e).dtor.useCount = (s.entries e).useCount := by
    unfold Entry.dtor
    split_ifs <;> rfl
  have hlocked : (s.entries e).dtor.locked = (s.entries e).locked := by
    unfold Entry.dtor
    split_ifs <;> rfl
  exact h.modifyEntry hlt ((h.ok e hlt).dtor hzero) hcount hlocked
    fun e' => List.mem_of_mem_erase

theorem Inv.closeConn (h : s.Inv) (he : e < s.next) : (s.modify e Entry.closeConn).Inv :=
  h.modifyEntry he (h.ok e he).closeConn rfl rfl fun _ => id

/-- One step of any thread keeps the invariant. -/
theorem Inv.step (h : s.Inv) (hbs : s.buckets ≠ []) {a : Action} (hs : s.step a = some s') :
    s'.Inv := by
  cases a with
  | onHttpConnection => exact h.onHttpConnection hs
  | pushBucket e | updateBucket e =>
    simp only [State.step] at hs
    split_ifs at hs with he
    cases hs
    exact h.insertBucket he hbs
  | onTimer => exact h.onTimer hs
  | lockEntry e =>
    simp only [State.step] at hs
    split_ifs at hs with hpos
    · cases hs
      refine h.acquire hpos rfl rfl (fun e' => ?_) rfl fun w hw e' he' => ⟨w, hw, he'⟩
      simp only [strong, State.modify, List.count_cons, beq_iff_eq]
      omega
    · cases hs
      exact h
  | queueTask i e =>
    simp only [State.step] at hs
    split_ifs at hs with he
    obtain ⟨w, hw, rfl⟩ := Option.map_eq_some_iff.mp hs
    exact h.queueTask hw _
  | dropTemporary e =>
    simp only [State.step] at hs
    split_ifs at hs with he
    cases hs
    refine h.release (h.pos_of_temporary he) rfl rfl (fun e' => ?_) rfl
      fun w hw e' he' => ⟨w, hw, he'⟩
    have hpos := List.count_pos_iff.mpr he
    simp only [strong, State.release, State.modify, List.count_erase, beq_iff_eq]
    split_ifs with heq
    · subst heq
      omega
    · omega
  | asyncHttpHandler i a =>
    obtain ⟨w, hw, hs⟩ := Option.bind_eq_some_iff.mp hs
    exact h.asyncHttpHandler hw hs
  | dtor e =>
    simp only [State.step] at hs
    split_ifs at hs with he
    cases hs
    exact h.dtor he
  | closeConn e =>
    simp only [State.step] at hs
    split_ifs at hs with he
    cases hs
    exact h.closeConn he

theorem buckets_asyncHttpHandler {i : ℕ} {a : HandlerStep} {w : Worker}
    (hs : s.asyncHttpHandler i a w = some s') : s'.buckets = s.buckets := by
  unfold State.asyncHttpHandler at hs
  split at hs <;> (try split_ifs at hs) <;> cases hs <;> rfl

theorem length_insertBucket (s : State) (e : ℕ) :
    (s.insertBucket e).buckets.length = s.buckets.length := by
  unfold State.insertBucket
  split_ifs
  · exact length_insertBack e s.buckets
  · rfl

theorem length_onTimer (hs : s.onTimer = some s') : s'.buckets.length = s.buckets.length := by
  unfold State.onTimer at hs
  split at hs
  · cases hs
  · rename_i front rest hbs
    cases hs
    simp [hbs]

/-- The wheel keeps its size. -/
theorem length_buckets_step {a : Action} (hs : s.step a = some s') :
    s'.buckets.length = s.buckets.length := by
  cases a with
  | pushBucket e | updateBucket e =>
    simp only [State.step] at hs
    split_ifs at hs
    cases hs
    exact length_insertBucket s e
  | onTimer => exact length_onTimer hs
  | queueTask i e =>
    simp only [State.step] at hs
    split_ifs at hs
    obtain ⟨w, -, rfl⟩ := Option.map_eq_some_iff.mp hs
    rfl
  | asyncHttpHandler i a =>
    obtain ⟨w, -, hs⟩ := Option.bind_eq_some_iff.mp hs
    rw [buckets_asyncHttpHandler hs]
  | onHttpConnection =>
    cases hs
    rfl
  | lockEntry e | dropTemporary e | dtor e | closeConn e =>
    simp only [State.step] at hs
    split_ifs at hs <;> cases hs <;> rfl

theorem inv_of_reachable {size workers : ℕ} (hsize : 1 ≤ size)
    (h : Reachable step (create size workers) s) : s.Inv := by
  have hinv : s.Inv ∧ s.buckets.length = size := by
    refine Reachable.invariant (P := fun s => s.Inv ∧ s.buckets.length = size) ?_ ?_ h
    · exact ⟨inv_create size workers, by simp [create]⟩
    · rintro s a s' ⟨hs, hlen⟩ hstep
      have hbs : s.buckets ≠ [] := by
        rintro hnil
        rw [hnil, List.length_nil] at hlen
        omega
      exact ⟨hs.step hbs hstep, (length_buckets_step hstep).trans hlen⟩
  exact hinv.1

/-- In every state that any interleaving leads to: no entry has both timed out and been processed,
no destructor is entered twice, and none while a handler owns the entry. -/
theorem timeout_excludes_processing {size workers : ℕ} (hsize : 1 ≤ size)
    (h : Reachable step (create size workers) s) (e : ℕ) :
    ¬ (0 < (s.entries e).expired ∧ 0 < (s.entries e).processed) ∧ (s.entries e).dtors ≤ 1 ∧
      ((∃ w ∈ s.workers, w.stage.holds e = true) → (s.entries e).dtors = 0) := by
  have hinv := inv_of_reachable hsize h
  rcases Nat.lt_or_ge e s.next with hlt | hge
  · have hok := hinv.ok e hlt
    refine ⟨?_, ?_, ?_⟩
    · rintro ⟨hexp, hproc⟩
      have hfree := (hok.expired hexp).2
      rw [hok.processed hproc] at hfree
      cases hfree
    · rw [hok.dtors]
      split_ifs <;> omega
    · rintro ⟨w, hw, hholds⟩
      have hpos := hinv.pos_of_holds hw hholds
      rw [hok.dtors, if_neg (by omega)]
  · rw [hinv.fresh e hge]
    exact ⟨by simp [Entry.unborn], by simp [Entry.unborn], fun _ => rfl⟩

/-- The wheel drops its reference while a worker has locked the entry. -/
def lockedRun : List Action :=
  [.onHttpConnection, .pushBucket 0, .queueTask 0 0, .dropTemporary 0,
    .asyncHttpHandler 0 .takeTask, .asyncHttpHandler 0 .lockWeakEntry,
    .asyncHttpHandler 0 .setLocked, .onTimer, .dropTemporary 0, .asyncHttpHandler 0 .lockConn,
    .asyncHttpHandler 0 .processHttpRequest]

theorem timeout_excludes_processing_lockedRun :
    ∃ s, run step (create 1 1) lockedRun = some s ∧ s.buckets = [[]] ∧
      (s.entries 0).processed = 1 ∧ (s.entries 0).dtors = 0 ∧
      ¬ (0 < (s.entries 0).expired ∧ 0 < (s.entries 0).processed) := by
  obtain ⟨s, hrun, htest⟩ := exists_run_of_test step (create 1 1) lockedRun
    (fun s => s.buckets = [[]] ∧ (s.entries 0).processed = 1 ∧
      ∃ w ∈ s.workers, w.stage.holds 0 = true) (by decide)
  obtain ⟨hbuckets, hprocessed, hholds⟩ := of_decide_eq_true htest
  obtain ⟨hnot, -, hdtors⟩ := timeout_excludes_processing (Nat.le_refl 1) ⟨lockedRun, hrun⟩ 0
  exact ⟨s, hrun, hbuckets, hprocessed, hdtors hholds, hnot⟩

end State

end LibWebsocket.ApiServer
