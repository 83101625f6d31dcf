import HPLinuxServer.Pool.ThreadPoolProperties

/-!
# Thread pool: how long the queue can become

The constructor initialises `m_max_requests` with itself, so the limit that `append`
compares with is what the memory of the member held before, not the argument.
-/

set_option autoImplicit false

namespace HPLinuxServer.Pool

open Memory Refinement

variable {ρ : Type}

namespace ThreadPool

/-- The pool behind its constructor, if that does not throw. `memory` is the value of
`m_max_requests` before its initialisation, `created` and `detached` are the results of
`pthread_create` and `pthread_detach` for each thread. -/
def construct (threadNumber _maxRequests memory : Int) (created detached : Nat → Int)
    (producers : Nat) : Option (ThreadPool ρ) :=
  let maxRequests := memory
  if threadNumber ≤ 0 ∨ maxRequests ≤ 0 then none
  else if (List.range threadNumber.toNat).any fun i =>
    decide (created i ≠ 0) || decide (detached i ≠ 0) then none
  else some (init maxRequests.toNat producers threadNumber.toNat)

/-- `append` with its result. -/
def appendCall (pool : ThreadPool ρ) (producer : Nat) (request : Option ρ) :
    Bool × ThreadPool ρ :=
  if pool.workqueue.length > pool.maxRequests then (false, pool)
  else (true, pool.append producer request)

/-- The queue is no longer than `limit`, and a call of `append` returns false and changes
neither the queue nor the semaphore exactly if it is that long. -/
def QueueBound (limit : Int) (pool : ThreadPool ρ) : Prop :=
  pool.workqueue.length ≤ limit ∧ ∀ producer request,
    (pool.appendCall producer request).1 = false ∧
        (pool.appendCall producer request).2.workqueue = pool.workqueue ∧
        (pool.appendCall producer request).2.queuestat = pool.queuestat ↔
      pool.workqueue.length = limit

/-- The limit is what it was, and the queue has at most one request more. -/
def Within (limit : Nat) (pool : ThreadPool ρ) : Prop :=
  pool.maxRequests = limit ∧ pool.workqueue.length ≤ limit + 1

variable {limit : Nat} {pool : ThreadPool ρ} {producer : Nat}

theorem append_full (full : pool.maxRequests < pool.workqueue.length) (request : Option ρ) :
    pool.append producer request = pool := if_pos full

theorem append_room (room : pool.workqueue.length ≤ pool.maxRequests) (producer : Nat)
    (request : Option ρ) :
    pool.append producer request = { pool with
      workqueue := pool.workqueue ++ [request]
      producers := pool.producers.set producer .pushed
      pushes := pool.pushes ++ [request] } := if_neg (Nat.not_lt.mpr room)

theorem appendCall_refused_iff (request : Option ρ) :
    (pool.appendCall producer request).1 = false ∧
        (pool.appendCall producer request).2.workqueue = pool.workqueue ∧
        (pool.appendCall producer request).2.queuestat = pool.queuestat ↔
      pool.maxRequests < pool.workqueue.length := by
  unfold appendCall
  split
  · next full => exact ⟨fun _ => full, fun _ => ⟨rfl, rfl, rfl⟩⟩
  · next room => exact ⟨fun refused => absurd refused.1.symm Bool.false_ne_true, fun full => absurd full room⟩

theorem queueBound_iff (within : Within limit pool) (bound : Int) :
    QueueBound bound pool ↔ (pool.workqueue.length : Int) ≤ bound ∧
      (pool.workqueue.length = limit + 1 ↔ (pool.workqueue.length : Int) = bound) := by
  obtain ⟨same, short⟩ := within
  have full : pool.maxRequests < pool.workqueue.length ↔ pool.workqueue.length = limit + 1 := by
    omega
  unfold QueueBound
  simp only [appendCall_refused_iff, full]
  exact and_congr_right fun _ => ⟨fun all => all 0 none, fun one _ _ => one⟩

theorem Within.exec (within : Within limit pool) {step : PoolStep ρ} :
    Yields (pool.exec step) (Within limit) := by
  obtain ⟨same, short⟩ := within
  cases step with
  | append producer request =>
      refine .ok ?_
      rcases Nat.lt_or_ge pool.maxRequests pool.workqueue.length with full | room
      · rw [append_full full]
        exact ⟨same, short⟩
      · rw [append_room room producer]
        refine ⟨same, ?_⟩
        rw [List.length_append, List.length_singleton]
        omega
  | post producer => exact .ok ⟨same, short⟩
  | wait worker => exact .ok ⟨same, short⟩
  | interrupted worker => exact .ok ⟨same, short⟩
  | take worker =>
      unfold ThreadPool.exec ThreadPool.take
      refine .ite (fun _ => .ok ⟨same, short⟩) fun _ => .bind_any fun request => .pure ⟨same, ?_⟩
      rw [List.length_tail]
      omega
  | process worker => exact .ok ⟨same, short⟩

/-- The constructor does not throw. -/
def Constructs (threadNumber memory : Int) (created detached : Nat → Int) : Prop :=
  0 < threadNumber ∧ 0 < memory ∧ ∀ i < threadNumber.toNat, created i = 0 ∧ detached i = 0

theorem construct_eq_some_iff {threadNumber maxRequests memory : Int}
    {created detached : Nat → Int} {producers : Nat} :
    construct threadNumber maxRequests memory created detached producers = some pool ↔
      Constructs threadNumber memory created detached ∧
        init memory.toNat producers threadNumber.toNat = pool := by
  have failing : ((List.range threadNumber.toNat).any fun i =>
      decide (created i ≠ 0) || decide (detached i ≠ 0)) = true ↔
        ¬ ∀ i < threadNumber.toNat, created i = 0 ∧ detached i = 0 := by
    rw [List.any_eq_true]
    simp only [List.mem_range, Bool.or_eq_true, decide_eq_true_iff]
    constructor
    · rintro ⟨i, inside, bad⟩ all
      obtain ⟨created, detached⟩ := all i inside
      exact bad.elim (absurd created) (absurd detached)
    · intro notAll
      by_contra allGood
      refine notAll fun i inside => ⟨?_, ?_⟩
      · by_contra bad
        exact allGood ⟨i, inside, .inl bad⟩
      · by_contra bad
        exact allGood ⟨i, inside, .inr bad⟩
  unfold construct Constructs
  dsimp only
  split
  · next bad => exact ⟨nofun, fun returns => by omega⟩
  · next good =>
      have positive : 0 < threadNumber ∧ 0 < memory := by omega
      split
      · next failed => exact ⟨nofun, fun returns => absurd returns.1.2.2 (failing.mp failed)⟩
      · next started =>
          have all := Classical.not_not.mp (mt failing.mpr started)
          exact ⟨fun returns => ⟨⟨positive.1, positive.2, all⟩, Option.some.inj returns⟩,
            fun returns => congrArg some returns.2⟩

/-- A producer that is never interrupted fills the queue up to one request more than the
limit. -/
theorem fills (pool : ThreadPool ρ) (count : Nat)
    (room : pool.workqueue.length + count ≤ pool.maxRequests + 1)
    (outside : pool.producers[0]? = some .outside) :
    ∃ schedule final, StepsMeet Enabled exec pool schedule ∧
      runOps exec pool schedule = .ok final ∧ final.maxRequests = pool.maxRequests ∧
      final.workqueue.length = pool.workqueue.length + count := by
  induction count generalizing pool with
  | zero => exact ⟨[], pool, trivial, rfl, rfl, rfl⟩
  | succ count ih =>
      have inside : 0 < pool.producers.length := (List.getElem?_eq_some_iff.mp outside).1
      have appended := append_room (by omega : pool.workqueue.length ≤ pool.maxRequests) 0 none
      obtain ⟨next, posted⟩ : ∃ next, (pool.append 0 none).post 0 = next := ⟨_, rfl⟩
      have same : next.maxRequests = pool.maxRequests := by
        rw [← posted, appended]
        rfl
      have longer : next.workqueue.length = pool.workqueue.length + 1 := by
        rw [← posted, appended]
        exact List.length_append
      have back : next.producers[0]? = some .outside := by
        rw [← posted, appended]
        exact List.getElem?_set_self (by simpa using inside)
      have pushed : (pool.append 0 none).Enabled (.post 0) := by
        rw [appended]
        exact List.getElem?_set_self inside
      obtain ⟨schedule, final, meets, run, kept, length⟩ := ih next (by omega) back
      subst posted
      exact ⟨.append 0 none :: .post 0 :: schedule, final, ⟨outside, pushed, meets⟩, run,
        kept.trans same, by omega⟩

end ThreadPool

open ThreadPool in
/-- No run of a constructed pool lets the queue grow beyond the argument of the constructor
or turns a request down too early exactly if the memory of the member held that argument
less one, or no pool comes out of the constructor. -/
theorem threadPool_queueBound_iff (threadNumber maxRequests memory : Int)
    (created detached : Nat → Int) :
    (∀ (producers : Nat) (start : ThreadPool ρ) (schedule : List (PoolStep ρ)),
      construct threadNumber maxRequests memory created detached producers = some start →
      StepsMeet Enabled exec start schedule →
      ReachesOnly (QueueBound maxRequests) exec start schedule) ↔
    (Constructs threadNumber memory created detached → memory + 1 = maxRequests) := by
  constructor
  · intro bounded constructs
    obtain ⟨schedule, final, meets, run, same, length⟩ :=
      fills (init memory.toNat 1 threadNumber.toNat : ThreadPool ρ) (memory.toNat + 1)
        (Nat.le_of_eq (Nat.zero_add _)) rfl
    have full : final.workqueue.length = memory.toNat + 1 := length.trans (Nat.zero_add _)
    have within : Within memory.toNat final := ⟨same, Nat.le_of_eq full⟩
    have reached := bounded 1 _ schedule (construct_eq_some_iff.mpr ⟨constructs, rfl⟩) meets
    have limit := ((queueBound_iff within maxRequests).mp (reached.final run)).2.mp full
    have held := constructs.2.1
    omega
  · intro exactly producers start schedule returns meets
    obtain ⟨constructs, rfl⟩ := construct_eq_some_iff.mp returns
    have held := constructs.2.1
    have limit := exactly constructs
    have kept : ReachesOnly (Within memory.toNat) exec _ schedule :=
      meets.reachesOnly (fun _ _ within _ => within.exec) ⟨rfl, Nat.zero_le _⟩
    refine kept.mono fun pool within => (queueBound_iff within maxRequests).mpr ?_
    have short := within.2
    omega

/-- The argument is 1, and so is what the memory happens to hold: the second request is
taken as well. -/
def twoAppends : List (PoolStep Nat) := [.append 0 (some 7), .post 0, .append 0 (some 8)]

theorem threadPool_queue_grows :
    ¬∀ (threadNumber maxRequests memory : Int) (created detached : Nat → Int) (producers : Nat)
        (start : ThreadPool Nat) (schedule : List (PoolStep Nat)),
      0 < threadNumber → 0 < maxRequests →
      ThreadPool.construct threadNumber maxRequests memory created detached producers =
        some start →
      StepsMeet ThreadPool.Enabled ThreadPool.exec start schedule →
      ReachesOnly (ThreadPool.QueueBound maxRequests) ThreadPool.exec start schedule := by
  intro claimed
  have reached := claimed 1 1 1 (fun _ => 0) (fun _ => 0) 1 (ThreadPool.init 1 1 1) twoAppends
    (by decide) (by decide) rfl (by decide)
  have bound := (reached.2.2.2).1
  exact absurd bound (by decide)

end HPLinuxServer.Pool
