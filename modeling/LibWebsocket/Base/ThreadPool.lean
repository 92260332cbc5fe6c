import LibWebsocket.Lib.Monitor
import LibWebsocket.Lib.Run

/-! The thread pool (`ThreadPool.cc`): tasks go through a queue to threads that execute them until
the pool is stopped. A task may itself call `run`. -/
namespace LibWebsocket.Base

open LibWebsocket.Lib

/-- What `run` is called with, and the task that calls it, if the caller is a thread of the pool.
Tasks are numbered in the order in which they are begun. -/
structure Queued (α : Type*) where
  task : α
  caller : Option ℕ
deriving DecidableEq, Repr

structure ThreadPool (α : Type*) where
  /-- The length of `threads_`. -/
  threads : ℕ
  running : Bool
  /-- `queue_`, and the threads that wait in `take` and `run`. -/
  queue : Monitor (Queued α)
  /-- The threads of the pool that are at the test of `runInThread`, and at the first test of
  `take`. -/
  outside : ℕ
  entering : ℕ
  /-- The tasks that are being executed, with their numbers. -/
  executing : List (ℕ × α)
  /-- The threads that have left `runInThread`. -/
  exited : ℕ
  /-- The tasks that have been executed. -/
  done : List α
deriving DecidableEq, Repr

/-- What can happen at a pool: another thread or a task calls `run` or another thread `stop`, a
thread of the pool goes on, or a thread that waits gets the mutex again. Behind `take`, `i` says
which of the threads is notified that wait for space; threads may also stop waiting without having
been notified. -/
inductive PoolStep (α : Type*)
  | run (caller : Option ℕ) (task : α)
  | runAgain (i : ℕ)
  | test
  | take (i : ℕ)
  | takeAgain (i : ℕ)
  | finish (i : ℕ)
  | stop
  | wakeTaker
  | wakePutter (i : ℕ)
deriving DecidableEq, Repr

variable {α : Type*}

namespace ThreadPool

/-- Behind `start`. -/
def create (numThreads : ℕ) : ThreadPool α :=
  ⟨numThreads, true, .create, numThreads, 0, [], 0, []⟩

/-- `isFull` holds of no queue if `maxQueueSize_` is zero. -/
def capacity (maxQueueSize : ℕ) : Option ℕ := if 0 < maxQueueSize then some maxQueueSize else none

/-- The task with this number waits in `run`. -/
def waits (p : ThreadPool α) (n : ℕ) : Bool :=
  (p.queue.waiting ++ p.queue.ready).any (·.caller = some n)

/-- A task that calls `run` is being executed and does not wait in another call. -/
def mayCall (p : ThreadPool α) (caller : Option ℕ) : Bool :=
  caller.all fun n => p.executing.any (·.1 = n) && !p.waits n

/-- `take` behind the mutex, and the test of `runInThread` whether it has brought a task. -/
def takeTask (i : ℕ) (p : ThreadPool α) : ThreadPool α :=
  match p.queue.pop i with
  | some r =>
    { p with queue := r.2, executing := p.executing ++ [(p.queue.popped.length, r.1.task)] }
  | none =>
    if p.running then { p with queue := p.queue.sleep } else { p with outside := p.outside + 1 }

def step (maxQueueSize : ℕ) (p : ThreadPool α) : PoolStep α → Option (ThreadPool α)
  | .run caller task =>
    if p.mayCall caller then
      if p.threads = 0 then some { p with done := p.done ++ [task] }
      else some { p with queue := p.queue.put (capacity maxQueueSize) ⟨task, caller⟩ }
    else none
  | .runAgain i =>
    (p.queue.putterBack i).map fun r => { p with queue := r.2.put (capacity maxQueueSize) r.1 }
  | .test =>
    if 0 < p.outside then
      if p.running then some { p with outside := p.outside - 1, entering := p.entering + 1 }
      else some { p with outside := p.outside - 1, exited := p.exited + 1 }
    else none
  | .take i =>
    if 0 < p.entering then some (takeTask i { p with entering := p.entering - 1 }) else none
  | .takeAgain i => p.queue.takerBack.map fun q => takeTask i { p with queue := q }
  | .finish i =>
    p.executing[i]?.bind fun x =>
      if p.waits x.1 then none
      else some { p with executing := p.executing.eraseIdx i, done := p.done ++ [x.2]
                         outside := p.outside + 1 }
  | .stop => some { p with running := false, queue := p.queue.notifyTakers }
  | .wakeTaker =>
    if 0 < p.queue.asleep then some { p with queue := p.queue.notifyTaker } else none
  | .wakePutter i =>
    if p.queue.waiting ≠ [] then some { p with queue := p.queue.notifyPutter i } else none

end ThreadPool

def PoolStep.asked : PoolStep α → Option (Queued α)
  | .run caller task => some ⟨task, caller⟩
  | _ => none

/-- What `run` has been called with, and by whom. -/
def calls (as : List (PoolStep α)) : List (Queued α) := as.filterMap PoolStep.asked

/-- The tasks that `run` has been called with. -/
def tasks (as : List (PoolStep α)) : List α := (calls as).map Queued.task

/-- The steps that a pool makes by itself. -/
def PoolStep.internal : PoolStep α → Bool
  | .runAgain _ | .test | .take _ | .takeAgain _ | .finish _ => true
  | .run _ _ | .stop | .wakeTaker | .wakePutter _ => false

namespace ThreadPool

variable {maxQueueSize i : ℕ} {p p' : ThreadPool α} {a : PoolStep α} {as bs : List (PoolStep α)}

/-- The ways in which `take` can go. -/
theorem takeTask_cases (i : ℕ) (p : ThreadPool α) :
    (∃ x q, p.queue.pop i = some (x, q) ∧ takeTask i p =
      { p with queue := q, executing := p.executing ++ [(p.queue.popped.length, x.task)] }) ∨
    (p.queue.items = [] ∧ p.running = true ∧ takeTask i p = { p with queue := p.queue.sleep }) ∨
    (p.queue.items = [] ∧ p.running = false ∧
      takeTask i p = { p with outside := p.outside + 1 }) := by
  rw [takeTask]
  cases hpop : p.queue.pop i with
  | some r => exact .inl ⟨r.1, r.2, rfl, rfl⟩
  | none =>
    have hempty := Monitor.pop_eq_none.mp hpop
    cases hrunning : p.running with
    | true => exact .inr (.inl ⟨hempty, rfl, if_pos rfl⟩)
    | false => exact .inr (.inr ⟨hempty, rfl, if_neg Bool.false_ne_true⟩)

theorem run_eq_some {caller : Option ℕ} {task : α} (hpos : 0 < p.threads)
    (hstep : p.step maxQueueSize (.run caller task) = some p') : p.mayCall caller = true ∧
      p' = { p with queue := p.queue.put (capacity maxQueueSize) ⟨task, caller⟩ } := by
  obtain ⟨hcall, hstep⟩ := Option.ite_none_right_eq_some.mp hstep
  rw [if_neg hpos.ne'] at hstep
  exact ⟨hcall, (Option.some.inj hstep).symm⟩

theorem finish_eq_some (hstep : p.step maxQueueSize (.finish i) = some p') :
    ∃ x, p.executing[i]? = some x ∧ p.waits x.1 = false ∧
      p' = { p with executing := p.executing.eraseIdx i, done := p.done ++ [x.2]
                    outside := p.outside + 1 } := by
  obtain ⟨x, hx, hstep⟩ := Option.bind_eq_some_iff.mp hstep
  obtain ⟨hwaits, hstep⟩ := Option.ite_none_left_eq_some.mp hstep
  exact ⟨x, hx, by simpa using hwaits, (Option.some.inj hstep).symm⟩

/-- Where the threads and the tasks of a pool are. `a` threads and `b` threads hold the mutex. -/
structure Sound (maxQueueSize a b : ℕ) (p : ThreadPool α) : Prop where
  pos : 0 < p.threads
  alert : p.queue.Alert (capacity maxQueueSize) a b
  count : p.outside + p.entering + p.executing.length + p.queue.asleep + p.queue.woken + p.exited
    + a = p.threads
  popped : (p.executing.map Prod.snd ++ p.done).Perm (p.queue.popped.map Queued.task)
  stopped : p.running = false → p.queue.asleep = 0
  running : p.running = true → p.exited = 0

theorem sound_create {numThreads : ℕ} (h : 0 < numThreads) :
    (create numThreads : ThreadPool α).Sound maxQueueSize 0 0 :=
  ⟨h, Monitor.alert_create, rfl, .refl _, fun _ => rfl, fun _ => rfl⟩

namespace Sound

theorem takeTask (h : p.Sound maxQueueSize 1 0) (i : ℕ) :
    (takeTask i p).Sound maxQueueSize 0 0 := by
  have hcount := h.count
  rcases takeTask_cases i p with ⟨x, q, hpop, heq⟩ | ⟨hempty, hrunning, heq⟩ | ⟨hempty, hrunning, heq⟩
  · obtain ⟨rest, waiting, ready, hitems, hq, -, -⟩ := Monitor.pop_eq_some hpop
    rw [heq]
    refine ⟨h.pos, h.alert.pop hpop, ?_, ?_, ?_, h.running⟩
    · simp only [hq, List.length_append, List.length_singleton]
      omega
    · simp only [hq, List.map_append, List.map_cons, List.map_nil]
      rw [List.append_assoc]
      exact List.perm_middle.trans ((h.popped.cons x.task).trans
        (List.perm_append_singleton ..).symm)
    · simp only [hq]
      exact h.stopped
  · rw [heq]
    refine ⟨h.pos, h.alert.sleep hempty, ?_, h.popped, fun hr => ?_, h.running⟩
    · simp only [Monitor.sleep]
      omega
    · rw [hrunning] at hr
      cases hr
  · rw [heq]
    refine ⟨h.pos, ⟨h.alert.order, h.alert.bound, fun hasleep => ?_, h.alert.putters⟩, ?_,
      h.popped, h.stopped, h.running⟩
    · exact absurd (h.stopped hrunning) hasleep.ne'
    · dsimp only
      omega

/-- Nothing else of the queue matters to the threads. -/
theorem of_queue {q : Monitor (Queued α)} (h : p.Sound maxQueueSize 0 0)
    (halert : q.Alert (capacity maxQueueSize) 0 0)
    (hsum : q.asleep + q.woken = p.queue.asleep + p.queue.woken) (hle : q.asleep ≤ p.queue.asleep)
    (hpopped : q.popped = p.queue.popped) :
    { p with queue := q }.Sound maxQueueSize 0 0 where
  pos := h.pos
  alert := halert
  count := by
    have := h.count
    dsimp only
    omega
  popped := h.popped.trans (.of_eq (congrArg _ hpopped.symm))
  stopped hr := by
    have : p.queue.asleep = 0 := h.stopped hr
    dsimp only
    omega
  running := h.running

theorem step (h : p.Sound maxQueueSize 0 0) (hstep : p.step maxQueueSize a = some p') :
    p'.Sound maxQueueSize 0 0 := by
  have hcount := h.count
  cases a with
  | run caller task =>
    obtain ⟨-, rfl⟩ := run_eq_some h.pos hstep
    obtain ⟨hsum, hle, hpopped⟩ := p.queue.put_counts (capacity maxQueueSize) ⟨task, caller⟩
    exact h.of_queue (h.alert.putter.put _) hsum hle hpopped
  | runAgain i =>
    obtain ⟨r, hr, rfl⟩ := Option.map_eq_some_iff.mp hstep
    obtain ⟨hsum, hle, hpopped⟩ := r.2.put_counts (capacity maxQueueSize) r.1
    have halert := (h.alert.putterBack hr).put r.1
    obtain ⟨y, hy, rfl⟩ := Option.map_eq_some_iff.mp hr
    exact h.of_queue halert hsum hle hpopped
  | test =>
    obtain ⟨hpos, hstep⟩ := Option.ite_none_right_eq_some.mp hstep
    split_ifs at hstep with hrunning <;> cases hstep
    · refine ⟨h.pos, h.alert, ?_, h.popped, h.stopped, h.running⟩
      dsimp only
      omega
    · refine ⟨h.pos, h.alert, ?_, h.popped, h.stopped, fun hr => absurd hr hrunning⟩
      dsimp only
      omega
  | take i =>
    obtain ⟨hpos, ⟨⟩⟩ := Option.ite_none_right_eq_some.mp hstep
    have hsound : { p with entering := p.entering - 1 }.Sound maxQueueSize 1 0 := by
      refine ⟨h.pos, h.alert.taker, ?_, h.popped, h.stopped, h.running⟩
      dsimp only
      omega
    exact hsound.takeTask i
  | takeAgain i =>
    obtain ⟨q, hq, rfl⟩ := Option.map_eq_some_iff.mp hstep
    have halert := h.alert.takerBack hq
    obtain ⟨hwoken, ⟨⟩⟩ := Option.ite_none_right_eq_some.mp hq
    have hsound : { p with queue := { p.queue with woken := p.queue.woken - 1 } }.Sound
        maxQueueSize 1 0 := by
      refine ⟨h.pos, halert, ?_, h.popped, h.stopped, h.running⟩
      dsimp only
      omega
    exact hsound.takeTask i
  | finish i =>
    obtain ⟨x, hx, -, rfl⟩ := finish_eq_some hstep
    obtain ⟨hi, rfl⟩ := List.getElem?_eq_some_iff.mp hx
    refine ⟨h.pos, h.alert, ?_, ?_, h.stopped, h.running⟩
    · dsimp only
      rw [List.length_eraseIdx_of_lt hi]
      omega
    · refine .trans ?_ h.popped
      rw [← List.append_assoc]
      refine (List.perm_append_singleton ..).trans ?_
      exact ((List.getElem_cons_eraseIdx_perm hi).map Prod.snd).append_right _
  | stop =>
    cases hstep
    refine ⟨h.pos, h.alert.notifyTakers, ?_, h.popped, fun _ => rfl, nofun⟩
    simp only [Monitor.notifyTakers]
    omega
  | wakeTaker =>
    obtain ⟨-, ⟨⟩⟩ := Option.ite_none_right_eq_some.mp hstep
    obtain ⟨hsum, hle⟩ := p.queue.notifyTaker_counts
    exact h.of_queue h.alert.notifyTaker hsum hle rfl
  | wakePutter i =>
    obtain ⟨-, ⟨⟩⟩ := Option.ite_none_right_eq_some.mp hstep
    have halert := h.alert.putter.notifyPutter i
    obtain ⟨waiting, ready, hq, -, -⟩ := p.queue.notifyPutter_eq i
    rw [hq] at halert ⊢
    exact h.of_queue halert rfl (Nat.le_refl _) rfl

end Sound

theorem sound_of_run {numThreads : ℕ} (hpos : 0 < numThreads)
    (h : run (step maxQueueSize) (create numThreads) as = some p) : p.Sound maxQueueSize 0 0 :=
  Reachable.invariant (sound_create hpos) Sound.step ⟨as, h⟩

theorem held_takeTask (i : ℕ) (p : ThreadPool α) :
    (takeTask i p).queue.held.Perm p.queue.held := by
  rcases takeTask_cases i p with ⟨x, q, hpop, heq⟩ | ⟨-, -, heq⟩ | ⟨-, -, heq⟩ <;> rw [heq]
  · exact Monitor.held_pop hpop
  · exact .refl _

theorem held_step (hpos : 0 < p.threads) (hstep : p.step maxQueueSize a = some p') :
    p'.queue.held.Perm (a.asked.toList ++ p.queue.held) := by
  cases a with
  | run caller task =>
    obtain ⟨-, rfl⟩ := run_eq_some hpos hstep
    exact p.queue.held_put _
  | runAgain i =>
    obtain ⟨r, hr, rfl⟩ := Option.map_eq_some_iff.mp hstep
    exact (r.2.held_put r.1).trans (Monitor.held_putterBack hr)
  | test =>
    obtain ⟨-, hstep⟩ := Option.ite_none_right_eq_some.mp hstep
    split_ifs at hstep <;> cases hstep <;> exact .refl _
  | take i =>
    obtain ⟨-, ⟨⟩⟩ := Option.ite_none_right_eq_some.mp hstep
    exact held_takeTask i { p with entering := p.entering - 1 }
  | takeAgain i =>
    obtain ⟨q, hq, rfl⟩ := Option.map_eq_some_iff.mp hstep
    refine (held_takeTask i { p with queue := q }).trans (.of_eq ?_)
    exact Monitor.held_takerBack hq
  | finish i =>
    obtain ⟨x, -, -, rfl⟩ := finish_eq_some hstep
    exact .refl _
  | stop =>
    cases hstep
    exact .refl _
  | wakeTaker =>
    obtain ⟨-, ⟨⟩⟩ := Option.ite_none_right_eq_some.mp hstep
    exact .refl _
  | wakePutter i =>
    obtain ⟨-, ⟨⟩⟩ := Option.ite_none_right_eq_some.mp hstep
    exact p.queue.held_notifyPutter i

theorem held_run (h : p.Sound maxQueueSize 0 0) (hrun : run (step maxQueueSize) p as = some p') :
    p'.queue.held.Perm (calls as ++ p.queue.held) := by
  induction as generalizing p with
  | nil =>
    cases hrun
    exact .refl _
  | cons a as ih =>
    obtain ⟨p₁, h₁, hrun⟩ := run_cons_eq_some.mp hrun
    refine (ih (h.step h₁) hrun).trans (((held_step h.pos h₁).append_left _).trans ?_)
    rw [calls, calls, List.filterMap_cons]
    cases a.asked with
    | none => exact .refl _
    | some x => exact List.perm_middle

theorem calls_perm {numThreads : ℕ} (hpos : 0 < numThreads)
    (h : run (step maxQueueSize) (create numThreads) as = some p) :
    (calls as).Perm (p.queue.waiting ++ p.queue.ready ++ p.queue.pushed) :=
  ((held_run (sound_create hpos) h).trans (.of_eq (List.append_nil _))).symm

theorem tasks_perm {numThreads : ℕ} (hpos : 0 < numThreads)
    (h : run (step maxQueueSize) (create numThreads) as = some p) : (tasks as).Perm
      ((p.queue.waiting ++ p.queue.ready).map Queued.task ++
        (p.executing.map Prod.snd ++ p.done ++ p.queue.items.map Queued.task)) := by
  have hsound := sound_of_run hpos h
  have hpushed : p.queue.pushed.map Queued.task =
      p.queue.popped.map Queued.task ++ p.queue.items.map Queued.task := by
    rw [hsound.alert.order, List.map_append]
  refine ((calls_perm hpos h).map Queued.task).trans ?_
  rw [List.map_append, hpushed]
  exact (hsound.popped.symm.append_right _).append_left _

/-- Every task that `run` was called with is at one place, whatever the threads do and in whichever
order they get the mutex: its caller waits, or it is in the queue, or it is being executed, or it
has been executed. Tasks are taken from the queue in the order in which they were put, and the queue
never holds more than it may. -/
theorem tasks_accounted {numThreads : ℕ} (hpos : 0 < numThreads)
    (h : run (step maxQueueSize) (create numThreads) as = some p) :
    (tasks as).Perm ((p.queue.waiting ++ p.queue.ready).map Queued.task ++
      (p.executing.map Prod.snd ++ p.done ++ p.queue.items.map Queued.task)) ∧
    p.queue.pushed = p.queue.popped ++ p.queue.items ∧
    (0 < maxQueueSize → p.queue.items.length ≤ maxQueueSize) := by
  have hsound := sound_of_run hpos h
  exact ⟨tasks_perm hpos h, hsound.alert.order, fun hmax => hsound.alert.bound _ (if_pos hmax)⟩

theorem tasks_accounted_full : ∃ (as : List (PoolStep ℕ)) (p : ThreadPool ℕ),
    run (step 1) (create 1) as = some p ∧ tasks as = [7, 8, 9] ∧
    (tasks as).Perm ((p.queue.waiting ++ p.queue.ready).map Queued.task ++
      (p.executing.map Prod.snd ++ p.done ++ p.queue.items.map Queued.task)) ∧
    p.queue.pushed = p.queue.popped ++ p.queue.items ∧ (0 < 1 → p.queue.items.length ≤ 1) := by
  obtain ⟨p, hp, -⟩ := exists_run_of_test (step 1) (create 1 : ThreadPool ℕ)
    [.run none 7, .test, .take 0, .run (some 0) 8, .run none 9, .wakePutter 0, .runAgain 0,
      .finish 0, .test]
    (fun _ => true) (by decide +kernel)
  exact ⟨_, p, hp, rfl, tasks_accounted (by decide) hp⟩

/-! ### No thread is left waiting -/

/-- The pool can do nothing by itself. -/
def Idle (maxQueueSize : ℕ) (p : ThreadPool α) : Prop :=
  ∀ a, a.internal = true → p.step maxQueueSize a = none

theorem idle_iff : p.Idle maxQueueSize ↔ p.queue.ready = [] ∧ p.outside = 0 ∧ p.entering = 0 ∧
    p.queue.woken = 0 ∧ ∀ x ∈ p.executing, p.waits x.1 = true := by
  constructor
  · intro h
    refine ⟨?_, ?_, ?_, ?_, ?_⟩
    · have hnone := Option.map_eq_none_iff.mp (h (.runAgain 0) rfl)
      exact List.head?_eq_none_iff.mp ((List.head?_eq_getElem? ..).trans
        (Option.map_eq_none_iff.mp hnone))
    · by_contra hne
      have hnone := h .test rfl
      rw [step, if_pos (Nat.pos_of_ne_zero hne)] at hnone
      split_ifs at hnone
    · by_contra hne
      have hnone := h (.take 0) rfl
      rw [step, if_pos (Nat.pos_of_ne_zero hne)] at hnone
      cases hnone
    · by_contra hne
      have hnone := Option.map_eq_none_iff.mp (h (.takeAgain 0) rfl)
      rw [Monitor.takerBack, if_pos (Nat.pos_of_ne_zero hne)] at hnone
      cases hnone
    · intro x hx
      obtain ⟨j, hj⟩ := List.mem_iff_getElem?.mp hx
      have hnone := h (.finish j) rfl
      rw [step, hj, Option.bind_some] at hnone
      by_contra hwaits
      rw [if_neg hwaits] at hnone
      cases hnone
  · rintro ⟨hready, houtside, hentering, hwoken, hexecuting⟩ a ha
    cases a with
    | run | stop | wakeTaker | wakePutter => cases ha
    | runAgain i => simp [step, Monitor.putterBack, hready]
    | test => simp [step, houtside]
    | take i => simp [step, hentering]
    | takeAgain i => simp [step, Monitor.takerBack, hwoken]
    | finish j =>
      cases hj : p.executing[j]? with
      | none => simp [step, hj]
      | some x => simp [step, hj, hexecuting x (List.mem_of_getElem? hj)]

/-- No task calls `run`. -/
def NoNested (as : List (PoolStep α)) : Prop := ∀ x ∈ calls as, x.caller = none

theorem executing_eq_nil {numThreads : ℕ} (hpos : 0 < numThreads)
    (h : run (step maxQueueSize) (create numThreads) as = some p) (hcalls : NoNested as)
    (hwaits : ∀ x ∈ p.executing, p.waits x.1 = true) : p.executing = [] := by
  refine List.eq_nil_iff_forall_not_mem.mpr fun x hx => ?_
  obtain ⟨y, hy, hcaller⟩ := List.any_eq_true.mp (hwaits x hx)
  have hasked : y ∈ calls as := (calls_perm hpos h).mem_iff.mpr (List.mem_append_left _ hy)
  have hnone := hcalls y hasked
  rw [of_decide_eq_true hcaller] at hnone
  cases hnone

/-- A task puts two further ones into the queue of its pool, which has space for one. -/
example : (run (step 1) (create 1 : ThreadPool ℕ)
    [.run none 7, .test, .take 0, .run (some 0) 8, .run (some 0) 9]).any (fun p =>
      p.executing.length = p.threads ∧ (∀ x ∈ p.executing, p.waits x.1 = true) ∧
        p.queue.items.length = 1) = true := by
  decide +kernel

/-! ### Behind `stop` -/

theorem stopped_takeTask (h : p.running = false) (i : ℕ) : (takeTask i p).running = false ∧
    (takeTask i p).queue.popped.length + (takeTask i p).entering + (takeTask i p).queue.woken ≤
      p.queue.popped.length + p.entering + p.queue.woken + 1 := by
  rcases takeTask_cases i p with ⟨x, q, hpop, heq⟩ | ⟨-, hrunning, -⟩ | ⟨-, -, heq⟩
  · obtain ⟨rest, waiting, ready, hitems, hq, -, -⟩ := Monitor.pop_eq_some hpop
    simp only [heq, hq, List.length_append, List.length_singleton]
    exact ⟨h, by omega⟩
  · rw [h] at hrunning
    cases hrunning
  · simp only [heq]
    exact ⟨h, Nat.le_succ _⟩

theorem stopped_step (hsound : p.Sound maxQueueSize 0 0) (h : p.running = false)
    (hstep : p.step maxQueueSize a = some p') : p'.running = false ∧
    p'.queue.popped.length + p'.entering + p'.queue.woken ≤
      p.queue.popped.length + p.entering + p.queue.woken := by
  have hasleep := hsound.stopped h
  cases a with
  | run caller task =>
    obtain ⟨-, rfl⟩ := run_eq_some hsound.pos hstep
    obtain ⟨hsum, -, hpopped⟩ := p.queue.put_counts (capacity maxQueueSize) ⟨task, caller⟩
    simp only [hpopped]
    exact ⟨h, by omega⟩
  | runAgain i =>
    obtain ⟨r, hr, rfl⟩ := Option.map_eq_some_iff.mp hstep
    obtain ⟨y, hy, rfl⟩ := Option.map_eq_some_iff.mp hr
    obtain ⟨hsum, -, hpopped⟩ := Monitor.put_counts (capacity maxQueueSize) y
      { p.queue with ready := p.queue.ready.eraseIdx i }
    dsimp only at hsum
    simp only [hpopped]
    exact ⟨h, by omega⟩
  | test =>
    obtain ⟨hpos, hstep⟩ := Option.ite_none_right_eq_some.mp hstep
    rw [h, if_neg Bool.false_ne_true] at hstep
    cases hstep
    exact ⟨rfl, Nat.le_refl _⟩
  | take i =>
    obtain ⟨hpos, ⟨⟩⟩ := Option.ite_none_right_eq_some.mp hstep
    obtain ⟨hrunning, hle⟩ := stopped_takeTask (p := { p with entering := p.entering - 1 }) h i
    dsimp only at hle
    exact ⟨hrunning, by omega⟩
  | takeAgain i =>
    obtain ⟨q, hq, rfl⟩ := Option.map_eq_some_iff.mp hstep
    obtain ⟨hwoken, ⟨⟩⟩ := Option.ite_none_right_eq_some.mp hq
    obtain ⟨hrunning, hle⟩ := stopped_takeTask
      (p := { p with queue := { p.queue with woken := p.queue.woken - 1 } }) h i
    dsimp only at hle
    exact ⟨hrunning, by omega⟩
  | finish i =>
    obtain ⟨x, -, -, rfl⟩ := finish_eq_some hstep
    exact ⟨h, Nat.le_refl _⟩
  | stop =>
    cases hstep
    dsimp only [Monitor.notifyTakers]
    exact ⟨rfl, by omega⟩
  | wakeTaker =>
    obtain ⟨hpos, -⟩ := Option.ite_none_right_eq_some.mp hstep
    omega
  | wakePutter i =>
    obtain ⟨-, ⟨⟩⟩ := Option.ite_none_right_eq_some.mp hstep
    obtain ⟨waiting, ready, hq, -, -⟩ := p.queue.notifyPutter_eq i
    simp only [hq]
    exact ⟨h, Nat.le_refl _⟩

theorem stopped_run (hsound : p.Sound maxQueueSize 0 0) (h : p.running = false)
    (hrun : run (step maxQueueSize) p bs = some p') : p'.running = false ∧
    p'.queue.popped.length + p'.entering + p'.queue.woken ≤
      p.queue.popped.length + p.entering + p.queue.woken := by
  induction bs generalizing p with
  | nil =>
    cases hrun
    exact ⟨h, Nat.le_refl _⟩
  | cons b bs ih =>
    obtain ⟨p₁, h₁, hrun⟩ := run_cons_eq_some.mp hrun
    obtain ⟨hstop₁, hle₁⟩ := stopped_step hsound h h₁
    obtain ⟨hstop, hle⟩ := ih (hsound.step h₁) hstop₁ hrun
    exact ⟨hstop, hle.trans hle₁⟩

/-- Behind `stop` at most one task is begun by each thread that was on its way to the queue, however
many tasks the queue holds and whatever is asked of the pool. When no thread can go on, all threads
have returned but those whose tasks wait in `run`: if tasks do not call `run`, `join` comes back. -/
theorem stop_ends {numThreads : ℕ} (hpos : 0 < numThreads)
    (h : run (step maxQueueSize) (create numThreads) as = some p) (hstop : p.running = false)
    (hrun : run (step maxQueueSize) p bs = some p') : p'.running = false ∧
    p'.queue.popped.length ≤ p.queue.popped.length + (p.entering + p.queue.woken) ∧
    (p'.Idle maxQueueSize → p'.exited + p'.executing.length = p'.threads ∧
      (∀ x ∈ p'.executing, p'.waits x.1 = true) ∧
      (NoNested (as ++ bs) → p'.exited = p'.threads)) := by
  have hall := run_append_eq_some.mpr ⟨p, h, hrun⟩
  obtain ⟨hstop', hle⟩ := stopped_run (sound_of_run hpos h) hstop hrun
  have hsound : p'.Sound maxQueueSize 0 0 := sound_of_run hpos hall
  refine ⟨hstop', by omega, fun hidle => ?_⟩
  obtain ⟨-, houtside, hentering, hwoken, hexecuting⟩ := idle_iff.mp hidle
  have hcount := hsound.count
  have hasleep := hsound.stopped hstop'
  refine ⟨by omega, hexecuting, fun hcalls => ?_⟩
  rw [executing_eq_nil hpos hall hcalls hexecuting, List.length_nil] at hcount
  omega

theorem stop_ends_queued : ∃ (as bs : List (PoolStep ℕ)) (p p' : ThreadPool ℕ),
    run (step 0) (create 2) as = some p ∧ p.running = false ∧ run (step 0) p bs = some p' ∧
    p'.queue.popped.length ≤ p.queue.popped.length + (p.entering + p.queue.woken) ∧
    p'.exited = p'.threads ∧ p'.queue.items = [⟨8, none⟩, ⟨9, none⟩] := by
  obtain ⟨p', hp', htest⟩ := exists_run_of_test (step 0) (create 2 : ThreadPool ℕ)
    ([.run none 7, .run none 8, .run none 9, .test, .stop] ++ [.take 0, .test, .finish 0, .test])
    (fun p => (p.queue.ready = [] ∧ p.outside = 0 ∧ p.entering = 0 ∧ p.queue.woken = 0 ∧
      ∀ x ∈ p.executing, p.waits x.1 = true) ∧ p.queue.items = [⟨8, none⟩, ⟨9, none⟩])
    (by decide +kernel)
  obtain ⟨p, hp, hrun⟩ := run_append_eq_some.mp hp'
  have hstop : (some p).map running = some false := by
    rw [← hp]
    decide +kernel
  obtain ⟨hidle, hitems⟩ := of_decide_eq_true htest
  obtain ⟨-, hle, hrest⟩ := stop_ends (by decide) hp (Option.some.inj hstop) hrun
  obtain ⟨-, -, hexited⟩ := hrest (idle_iff.mpr hidle)
  exact ⟨_, _, p, p', hp, Option.some.inj hstop, hrun, hle,
    hexited (by simp [NoNested, calls, PoolStep.asked]), hitems⟩

theorem joined_step (hsound : p.Sound maxQueueSize 0 0) (h : p.exited = p.threads)
    (hstep : p.step maxQueueSize a = some p') :
    p'.exited = p'.threads ∧ p'.queue.popped = p.queue.popped ∧ p'.done = p.done ∧
    (0 < maxQueueSize → p.queue.items.length = maxQueueSize →
      p'.queue.items = p.queue.items ∧ p'.queue.pushed = p.queue.pushed) := by
  have hcount := hsound.count
  -- a full queue turns a task away, whether its caller comes for the first time or again
  have hfull : ∀ (q : Monitor (Queued α)) (x : Queued α), q.items = p.queue.items →
      q.pushed = p.queue.pushed → 0 < maxQueueSize → p.queue.items.length = maxQueueSize →
      (q.put (capacity maxQueueSize) x).items = p.queue.items ∧
        (q.put (capacity maxQueueSize) x).pushed = p.queue.pushed := by
    intro q x hitems hpushed hmax hlen
    rw [Monitor.put, if_pos]
    · exact ⟨hitems, hpushed⟩
    · exact Monitor.isFull_iff.mpr ⟨_, if_pos hmax, by rw [hitems, hlen]⟩
  cases a with
  | run caller task =>
    obtain ⟨-, rfl⟩ := run_eq_some hsound.pos hstep
    obtain ⟨-, -, hpopped⟩ := p.queue.put_counts (capacity maxQueueSize) ⟨task, caller⟩
    exact ⟨h, hpopped, rfl, hfull _ _ rfl rfl⟩
  | runAgain i =>
    obtain ⟨r, hr, rfl⟩ := Option.map_eq_some_iff.mp hstep
    obtain ⟨y, hy, rfl⟩ := Option.map_eq_some_iff.mp hr
    obtain ⟨-, -, hpopped⟩ := Monitor.put_counts (capacity maxQueueSize) y
      { p.queue with ready := p.queue.ready.eraseIdx i }
    exact ⟨h, hpopped, rfl, hfull _ _ rfl rfl⟩
  | test | take =>
    obtain ⟨hpos, -⟩ := Option.ite_none_right_eq_some.mp hstep
    omega
  | takeAgain i =>
    obtain ⟨q, hq, rfl⟩ := Option.map_eq_some_iff.mp hstep
    obtain ⟨hwoken, -⟩ := Option.ite_none_right_eq_some.mp hq
    omega
  | finish i =>
    obtain ⟨x, hx, -, -⟩ := finish_eq_some hstep
    obtain ⟨hi, -⟩ := List.getElem?_eq_some_iff.mp hx
    omega
  | stop =>
    cases hstep
    exact ⟨h, rfl, rfl, fun _ _ => ⟨rfl, rfl⟩⟩
  | wakeTaker =>
    obtain ⟨hpos, -⟩ := Option.ite_none_right_eq_some.mp hstep
    omega
  | wakePutter i =>
    obtain ⟨-, ⟨⟩⟩ := Option.ite_none_right_eq_some.mp hstep
    obtain ⟨waiting, ready, hq, -, -⟩ := p.queue.notifyPutter_eq i
    rw [hq]
    exact ⟨h, rfl, rfl, fun _ _ => ⟨rfl, rfl⟩⟩

theorem joined_run (hsound : p.Sound maxQueueSize 0 0) (h : p.exited = p.threads)
    (hrun : run (step maxQueueSize) p bs = some p') :
    p'.queue.popped = p.queue.popped ∧ p'.done = p.done ∧
    (0 < maxQueueSize → p.queue.items.length = maxQueueSize →
      p'.queue.pushed = p.queue.pushed) := by
  induction bs generalizing p with
  | nil =>
    cases hrun
    exact ⟨rfl, rfl, fun _ _ => rfl⟩
  | cons b bs ih =>
    obtain ⟨p₁, h₁, hrun⟩ := run_cons_eq_some.mp hrun
    obtain ⟨hjoin₁, hpopped₁, hdone₁, hfull₁⟩ := joined_step hsound h h₁
    obtain ⟨hpopped, hdone, hfull⟩ := ih (hsound.step h₁) hjoin₁ hrun
    refine ⟨hpopped.trans hpopped₁, hdone.trans hdone₁, fun hmax hlen => ?_⟩
    obtain ⟨hitems₁, hpushed₁⟩ := hfull₁ hmax hlen
    exact (hfull hmax (by rw [hitems₁, hlen])).trans hpushed₁

/-- Behind `join` no task is executed any more: what the queue holds stays there, and so does what
`run` puts into it. If the queue is full, nothing is put into it any more: `stop` notifies
`notEmpty_` and not `notFull_`, and every caller of `run` waits for ever. -/
theorem stranded_after_join {numThreads : ℕ} (hpos : 0 < numThreads)
    (h : run (step maxQueueSize) (create numThreads) as = some p) (hjoin : p.exited = p.threads)
    (hrun : run (step maxQueueSize) p bs = some p') :
    p'.done = p.done ∧ p'.queue.popped = p.queue.popped ∧
    (0 < maxQueueSize → p.queue.items.length = maxQueueSize →
      p'.queue.pushed = p.queue.pushed) := by
  obtain ⟨hpopped, hdone, hfull⟩ := joined_run (sound_of_run hpos h) hjoin hrun
  exact ⟨hdone, hpopped, hfull⟩

theorem stranded_after_join_full : ∃ (as bs : List (PoolStep ℕ)) (p p' : ThreadPool ℕ),
    run (step 1) (create 1) as = some p ∧ p.exited = p.threads ∧ p.queue.pushed = [⟨7, none⟩] ∧
    run (step 1) p bs = some p' ∧ tasks bs = [9] ∧ p'.done = p.done ∧
    p'.queue.pushed = p.queue.pushed := by
  obtain ⟨p', hp', -⟩ := exists_run_of_test (step 1) (create 1 : ThreadPool ℕ)
    ([.run none 7, .run none 8, .stop, .test] ++ [.run none 9]) (fun _ => true) (by decide +kernel)
  obtain ⟨p, hp, hrun⟩ := run_append_eq_some.mp hp'
  have htest : (some p).map (fun p => (p.exited, p.threads, p.queue.pushed, p.queue.items.length)) =
      some (1, 1, [⟨7, none⟩], 1) := by
    rw [← hp]
    decide +kernel
  injection htest with htest
  obtain ⟨hexited, hthreads, hpushed, hlen⟩ : p.exited = 1 ∧ p.threads = 1 ∧
    p.queue.pushed = [⟨7, none⟩] ∧ p.queue.items.length = 1 := by simpa using htest
  have hjoin := hexited.trans hthreads.symm
  obtain ⟨hdone, -, hfull⟩ := stranded_after_join (by decide) hp hjoin hrun
  exact ⟨_, _, p, p', hp, hjoin, hpushed, hrun, rfl, hdone, hfull (by decide) hlen⟩

end ThreadPool

end LibWebsocket.Base
