import Mathlib.Data.Int.CardIntervalMod
import Mathlib.Data.List.Nodup
import Mathlib.Data.List.Perm.Subperm

/-! The workers of the API server. `start` deals them out to the I/O loops one by one, and every
loop binds its new connections to its own workers in turn. -/
namespace LibWebsocket.ApiServer

/-- Why an allocation does not return. -/
inductive AllocFault
  | divisionByZero | assertion
deriving DecidableEq, Repr

/-- `pool` has indices of worker threads; the counter is an `AtomicInt32`. -/
structure EventLoopContext where
  index : ℕ
  pool : List ℕ
  nextPool : BitVec 32
deriving DecidableEq, Repr

namespace EventLoopContext

def create (index : ℕ) : EventLoopContext := ⟨index, [], 0⟩

def addWorkerIndex (c : EventLoopContext) (index : ℕ) : EventLoopContext :=
  { c with pool := c.pool ++ [index] }

/-- The checked access at the end of an allocation. -/
def workerAt (c : EventLoopContext) (index : BitVec 32) : Except AllocFault (ℕ × EventLoopContext) :=
  if 0 ≤ index.toInt ∧ (index.signExtend 64).toNat < c.pool.length then
    .ok (c.pool.getD index.toNat 0, c)
  else .error .assertion

/-- The remainder is taken in `size_t`, where a negative counter is a large number, and stored in
an `int`. A negative one makes the source start again at zero. -/
def allocWorkerIndex (c : EventLoopContext) : Except AllocFault (ℕ × EventLoopContext) :=
  if c.pool.length = 0 then .error .divisionByZero
  else
    let index := BitVec.ofNat 32 ((c.nextPool.signExtend 64).toNat % c.pool.length)
    if index.toInt < 0 then { c with nextPool := 0 }.workerAt 0
    else { c with nextPool := c.nextPool + 1 }.workerAt index

/-- The workers of `n` new connections. -/
def allocWorkerIndices : ℕ → EventLoopContext → Except AllocFault (List ℕ × EventLoopContext)
  | 0, c => .ok ([], c)
  | n + 1, c => do
    let (i, c) ← c.allocWorkerIndex
    let (is, c) ← allocWorkerIndices n c
    pure (i :: is, c)

end EventLoopContext

/-- One round of the loop that deals out the workers; `next` is the loop whose turn it is. -/
def bindWorker (s : ℕ × List EventLoopContext) (index : ℕ) : ℕ × List EventLoopContext :=
  let (next, loops) := s
  (if loops.length ≤ next + 1 then 0 else next + 1, loops.modify next (·.addWorkerIndex index))

/-- The contexts of the loops behind `ApiServer::start`. -/
def start (numLoops numWorkers : ℕ) : List EventLoopContext :=
  ((List.range numWorkers).foldl bindWorker (0, (List.range numLoops).map .create)).2

section Deal
variable {L W : ℕ}

/-- The workers whose index is `i` modulo the number of loops. -/
def share (L W i : ℕ) : List ℕ := (List.range W).filter (· % L = i)

theorem share_succ (L W i : ℕ) :
    share L (W + 1) i = share L W i ++ if W % L = i then [W] else [] := by
  rw [share, List.range_succ, List.filter_append, List.filter_singleton]
  simp [share]

theorem mem_share {i w : ℕ} : w ∈ share L W i ↔ w < W ∧ w % L = i := by
  simp [share]

theorem length_share {i : ℕ} (hi : i < L) :
    (share L W i).length = W / L + if i < W % L then 1 else 0 := by
  have hcount : (share L W i).length = W.count (· ≡ i [MOD L]) := by
    induction W with
    | zero => rfl
    | succ W ih =>
      have hiff : W ≡ i [MOD L] ↔ W % L = i := by
        unfold Nat.ModEq
        rw [Nat.mod_eq_of_lt hi]
      rw [share_succ, List.length_append, ih, Nat.count_succ]
      simp only [hiff]
      split_ifs <;> rfl
  rw [hcount, Nat.count_modEq_card W (Nat.zero_lt_of_lt hi), Nat.mod_eq_of_lt hi]

theorem succ_mod_eq (hL : 0 < L) : (W + 1) % L = if L ≤ W % L + 1 then 0 else W % L + 1 := by
  have hlt := Nat.mod_lt W hL
  rw [← Nat.mod_add_mod]
  split_ifs with h
  · rw [show W % L + 1 = L by omega, Nat.mod_self]
  · exact Nat.mod_eq_of_lt (by omega)

/-- Worker `W` goes to the loop `W` modulo their number. -/
theorem foldl_bindWorker (hL : 0 < L) (W : ℕ) :
    (List.range W).foldl bindWorker (0, (List.range L).map .create) =
      (W % L, (List.range L).map fun i => ⟨i, share L W i, 0⟩) := by
  induction W with
  | zero => simp [share, EventLoopContext.create]
  | succ W ih =>
    rw [List.range_succ, List.foldl_append, ih, List.foldl_cons, List.foldl_nil, bindWorker]
    simp only [List.length_map, List.length_range, succ_mod_eq hL, Prod.mk.injEq, true_and]
    apply List.ext_getElem?
    intro i
    rw [List.getElem?_modify, List.getElem?_map, List.getElem?_map]
    by_cases hi : i < L
    · rw [List.getElem?_range hi]
      simp only [Option.map_some, share_succ]
      by_cases hturn : W % L = i
      · simp [hturn, EventLoopContext.addWorkerIndex]
      · simp [hturn]
    · rw [List.getElem?_eq_none (by simpa using hi)]
      rfl

theorem start_eq (hL : 0 < L) (W : ℕ) :
    start L W = (List.range L).map fun i => ⟨i, share L W i, 0⟩ := by
  rw [start, foldl_bindWorker hL]

theorem mem_start (hL : 0 < L) {c : EventLoopContext} :
    c ∈ start L W ↔ ∃ i < L, c = ⟨i, share L W i, 0⟩ := by
  rw [start_eq hL]
  simp [eq_comm]

/-- The pools have every worker once and nothing else. -/
theorem start_perm (hL : 0 < L) (W : ℕ) :
    ((start L W).flatMap EventLoopContext.pool).Perm (List.range W) := by
  rw [start_eq hL, List.flatMap_map]
  refine (List.perm_ext_iff_of_nodup ?_ List.nodup_range).mpr fun w => ?_
  · refine List.nodup_flatMap.mpr ⟨fun i _ => List.nodup_range.filter _, ?_⟩
    refine List.nodup_range.imp fun {i j} hne => ?_
    intro w hi hj
    exact hne ((mem_share.mp hi).2.symm.trans (mem_share.mp hj).2)
  · rw [List.mem_flatMap, List.mem_range]
    constructor
    · rintro ⟨i, -, hw⟩
      exact (mem_share.mp hw).1
    · intro hw
      exact ⟨w % L, List.mem_range.mpr (Nat.mod_lt w hL), mem_share.mpr ⟨hw, rfl⟩⟩

theorem start_balanced (hL : 0 < L) {c c' : EventLoopContext} (hc : c ∈ start L W)
    (hc' : c' ∈ start L W) : c.pool.length ≤ c'.pool.length + 1 := by
  obtain ⟨i, hi, rfl⟩ := (mem_start hL).mp hc
  obtain ⟨j, hj, rfl⟩ := (mem_start hL).mp hc'
  dsimp only
  rw [length_share hi, length_share hj]
  split_ifs <;> omega

end Deal

namespace EventLoopContext

theorem getD_mem {l : List ℕ} {i : ℕ} (hi : i < l.length) : l.getD i 0 ∈ l := by
  rw [List.getD_eq_getElem?_getD, List.getElem?_eq_getElem hi]
  exact List.getElem_mem hi

theorem workerAt_of_lt {c : EventLoopContext} {index : BitVec 32} (hneg : 0 ≤ index.toInt)
    (hlt : index.toNat < c.pool.length) :
    c.workerAt index = .ok (c.pool.getD index.toNat 0, c) := by
  have hmsb : index.msb = false := by
    rw [BitVec.msb_eq_toInt, decide_eq_false_iff_not]
    exact not_lt.mpr hneg
  have hext : (index.signExtend 64).toNat = index.toNat := by
    rw [BitVec.signExtend_eq_setWidth_of_msb_false hmsb, BitVec.toNat_setWidth]
    exact Nat.mod_eq_of_lt (by have := index.isLt; omega)
  rw [workerAt, hext, if_pos ⟨hneg, hlt⟩]

/-- Whatever the counter, a loop that has workers allocates one of them. -/
theorem allocWorkerIndex_of_pos {c : EventLoopContext} (h : 0 < c.pool.length) :
    ∃ i c', c.allocWorkerIndex = .ok (i, c') ∧ i ∈ c.pool ∧ c'.pool = c.pool := by
  have hr : (c.nextPool.signExtend 64).toNat % c.pool.length < c.pool.length := Nat.mod_lt _ h
  unfold allocWorkerIndex
  rw [if_neg (by omega)]
  dsimp only
  generalize (c.nextPool.signExtend 64).toNat % c.pool.length = r at hr ⊢
  split_ifs with hneg
  · -- a remainder beyond the `int`s is taken for an overflow
    exact ⟨_, _, workerAt_of_lt le_rfl h, getD_mem h, rfl⟩
  · have hle : (BitVec.ofNat 32 r).toNat ≤ r := by
      rw [BitVec.toNat_ofNat]
      exact Nat.mod_le _ _
    exact ⟨_, _, workerAt_of_lt (not_lt.mp hneg) (hle.trans_lt hr), getD_mem (hle.trans_lt hr), rfl⟩

theorem allocWorkerIndices_of_pos {c : EventLoopContext} (h : 0 < c.pool.length) (n : ℕ) :
    ∃ is c', c.allocWorkerIndices n = .ok (is, c') ∧ is.length = n ∧ ∀ i ∈ is, i ∈ c.pool := by
  induction n generalizing c with
  | zero => exact ⟨[], c, rfl, rfl, by simp⟩
  | succ n ih =>
    obtain ⟨i, c₁, halloc, hi, hpool⟩ := allocWorkerIndex_of_pos h
    obtain ⟨is, c₂, hrest, hlen, his⟩ := ih (c := c₁) (by rwa [hpool])
    refine ⟨i :: is, c₂, ?_, by rw [List.length_cons, hlen], ?_⟩
    · rw [allocWorkerIndices, halloc]
      simp only [Bind.bind, Except.bind]
      rw [hrest]
      rfl
    · rw [List.forall_mem_cons]
      exact ⟨hi, fun j hj => hpool ▸ his j hj⟩

end EventLoopContext

/-- `start` always deals every worker to one loop, as evenly as possible. All allocations on all
loops return a worker of the loop's own pool exactly if there are as many workers as loops. -/
theorem start_alloc_iff (L W : ℕ) (hL : 1 ≤ L) :
    ((start L W).flatMap EventLoopContext.pool).Perm (List.range W) ∧
      (∀ c ∈ start L W, ∀ c' ∈ start L W, c.pool.length ≤ c'.pool.length + 1) ∧
      ((∀ c ∈ start L W, ∀ n, ∃ is c', c.allocWorkerIndices n = .ok (is, c') ∧ is.length = n ∧
          ∀ i ∈ is, i ∈ c.pool ∧ i < W) ↔ L ≤ W) := by
  refine ⟨start_perm hL W, fun c hc c' hc' => start_balanced hL hc hc', ?_⟩
  constructor
  · intro h
    -- the last loop has no worker unless there is one for each
    have hlast : (⟨L - 1, share L W (L - 1), 0⟩ : EventLoopContext) ∈ start L W :=
      (mem_start hL).mpr ⟨L - 1, by omega, rfl⟩
    obtain ⟨is, c', halloc, hlen, his⟩ := h _ hlast 1
    obtain ⟨i, rfl⟩ := List.length_eq_one_iff.mp hlen
    obtain ⟨hi, hlt⟩ := his i (by simp)
    have hmod := (mem_share.mp hi).2
    have hle := Nat.mod_le i L
    omega
  · intro hLW c hc n
    obtain ⟨i, hi, rfl⟩ := (mem_start hL).mp hc
    have hpos : 0 < (share L W i).length := by
      rw [length_share hi]
      have := Nat.div_pos hLW hL
      omega
    obtain ⟨is, c', halloc, hlen, his⟩ :=
      EventLoopContext.allocWorkerIndices_of_pos (c := ⟨i, share L W i, 0⟩) hpos n
    exact ⟨is, c', halloc, hlen, fun j hj => ⟨his j hj, (mem_share.mp (his j hj)).1⟩⟩

theorem start_alloc_two_loops :
    ((start 2 3).flatMap EventLoopContext.pool).Perm (List.range 3) ∧
      (∀ c ∈ start 2 3, ∀ c' ∈ start 2 3, c.pool.length ≤ c'.pool.length + 1) ∧
      ((∀ c ∈ start 2 3, ∀ n, ∃ is c', c.allocWorkerIndices n = .ok (is, c') ∧ is.length = n ∧
          ∀ i ∈ is, i ∈ c.pool ∧ i < 3) ↔ 2 ≤ 3) :=
  start_alloc_iff 2 3 (by decide)

/-- With two loops and one worker, the first connection on the second loop divides by zero. -/
theorem start_alloc_divides_by_zero :
    ∃ c ∈ start 2 1, c.allocWorkerIndex = .error .divisionByZero :=
  ⟨⟨1, [], 0⟩, by decide, rfl⟩

end LibWebsocket.ApiServer
