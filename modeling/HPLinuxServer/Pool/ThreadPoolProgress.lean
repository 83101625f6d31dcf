import HPLinuxServer.Pool.ThreadPoolLocksProperties

/-!
# Thread pool: the threads do not block each other

Without new calls of `append` and without interruptions the threads take a bounded number
of steps. Where none of them can go on, they are all outside or waiting, and there is
nothing left in the queue.
-/

set_option autoImplicit false

namespace HPLinuxServer.Pool

open Memory Refinement Concurrency

variable {ρ : Type}

/-- How many steps the thread can still cause: its own ones, and those of the worker that
its `post` wakes up. -/
def AppendPlace.left : AppendPlace ρ → Nat
  | outside => 0
  | locking _ => 12
  | comparing _ => 11
  | refusing => 1
  | pushing _ => 10
  | unlocking => 9
  | posting => 8

def RunPlace.left : RunPlace ρ → Nat
  | waiting => 0
  | locking => 6
  | testing => 5
  | retreating => 1
  | reading => 4
  | popping _ => 3
  | unlocking _ => 2
  | processing _ => 1

theorem AppendPlace.left_le (place : AppendPlace ρ) : place.left ≤ 12 := by
  cases place <;> simp [left]

theorem RunPlace.left_le (place : RunPlace ρ) : place.left ≤ 6 := by
  cases place <;> simp [left]

/-- A step of a producer or a worker of the pool, whose wait is not interrupted. -/
def LockedStep.isForward : LockedStep ρ → Bool
  | call _ _ => false
  | producer _ => true
  | worker _ => true
  | interrupted _ => false

namespace LockedPool

variable {pool : LockedPool ρ} {index : Nat}

def left (pool : LockedPool ρ) : Nat :=
  (pool.producers.map AppendPlace.left).sum + (pool.workers.map RunPlace.left).sum +
    7 * pool.queuestat

/-- Only new calls and interruptions can still make a thread move. -/
def Settled (pool : LockedPool ρ) : Prop := ∀ step, step.isForward = true → ¬ pool.Enabled step

theorem left_le (pool : LockedPool ρ) :
    pool.left ≤ 12 * pool.producers.length + 6 * pool.workers.length + 7 * pool.queuestat := by
  have producers := sum_le_length AppendPlace.left_le pool.producers
  have workers := sum_le_length RunPlace.left_le pool.workers
  unfold left
  omega

theorem append_left {place : AppendPlace ρ} (found : pool.producers[index]? = some place)
    (moves : place.moves pool.owner.isNone = true) :
    (pool.append index place).left < pool.left := by
  have moved := fun next => sum_move AppendPlace.left found next
  unfold append left moveProducer
  cases place with
  | outside => exact nomatch moves
  | locking request =>
      have here := moved (.comparing request)
      simp only [AppendPlace.left] at here ⊢
      omega
  | comparing request =>
      have refused := moved .refusing
      have pushed := moved (.pushing request)
      simp only [AppendPlace.left] at refused pushed
      dsimp only
      split
      · dsimp only
        omega
      · dsimp only
        omega
  | refusing =>
      have here := moved .outside
      simp only [AppendPlace.left] at here ⊢
      omega
  | pushing request =>
      have here := moved .unlocking
      simp only [AppendPlace.left] at here ⊢
      omega
  | unlocking =>
      have here := moved .posting
      simp only [AppendPlace.left] at here ⊢
      omega
  | posting =>
      have here := moved .outside
      simp only [AppendPlace.left] at here ⊢
      omega

theorem taken_left (request : Option ρ) : (RunPlace.taken request).left < 2 := by
  cases request with
  | none => simp [RunPlace.taken, RunPlace.left]
  | some request => simp [RunPlace.taken, RunPlace.left]

theorem run_left {place : RunPlace ρ} (found : pool.workers[index]? = some place)
    (moves : place.moves pool.owner.isNone (decide (0 < pool.queuestat)) = true) :
    Yields (pool.run index place) fun next => next.left < pool.left := by
  have moved := fun next => sum_move RunPlace.left found next
  cases place with
  | waiting =>
      have positive : 0 < pool.queuestat := of_decide_eq_true moves
      have here := moved .locking
      refine .ok ?_
      simp only [RunPlace.left, left, moveWorker] at here ⊢
      omega
  | locking =>
      have here := moved .testing
      refine .ok ?_
      simp only [RunPlace.left, left, moveWorker] at here ⊢
      omega
  | testing =>
      have empty := moved .retreating
      have filled := moved .reading
      refine .ite (fun _ => .ok ?_) fun _ => .ok ?_
      · simp only [RunPlace.left, left, moveWorker] at empty ⊢
        omega
      · simp only [RunPlace.left, left, moveWorker] at filled ⊢
        omega
  | retreating =>
      have here := moved .waiting
      refine .ok ?_
      simp only [RunPlace.left, left, moveWorker] at here ⊢
      omega
  | reading =>
      refine .bind_any fun request => .pure ?_
      have here := moved (.popping request)
      simp only [RunPlace.left, left, moveWorker] at here ⊢
      omega
  | popping request =>
      refine .bind_of_eq fun rest popped => .pure ?_
      have here := moved (.unlocking request)
      unfold popFront at popped
      split at popped
      · exact nomatch popped
      · cases popped
        simp only [RunPlace.left, left, moveWorker] at here ⊢
        omega
  | unlocking request =>
      have here := moved (.taken request)
      have less := taken_left request
      have before : (RunPlace.unlocking request).left = 2 := rfl
      refine .ok ?_
      simp only [left, moveWorker] at here ⊢
      omega
  | processing request =>
      have here := moved .waiting
      refine .ok ?_
      simp only [RunPlace.left, left, moveWorker] at here ⊢
      omega

theorem exec_left {step : LockedStep ρ} (forward : step.isForward = true)
    (enabled : pool.Enabled step) :
    Yields (pool.exec step) fun next => next.left < pool.left := by
  cases step with
  | call producer request => exact nomatch forward
  | interrupted worker => exact nomatch forward
  | producer index =>
      obtain ⟨place, found, moves⟩ := (Option.any_eq_true _ _).mp enabled
      rw [exec_producer found]
      exact .ok (append_left found moves)
  | worker index =>
      obtain ⟨place, found, moves⟩ := (Option.any_eq_true _ _).mp enabled
      rw [exec_worker found]
      exact run_left found moves

/-! ## Where nothing goes on -/

namespace Settled

theorem free (settled : Settled pool) (guarded : Guarded pool) : pool.owner = none := by
  cases owned : pool.owner with
  | none => rfl
  | some thread =>
      have here := (guarded.exclusive thread).mpr owned
      cases thread with
      | producer index =>
          obtain ⟨place, found, inside⟩ := (Option.any_eq_true _ _).mp here
          refine absurd ((Option.any_eq_true _ _).mpr ⟨place, found, ?_⟩)
            (settled (.producer index) rfl)
          cases place with
          | outside => exact nomatch inside
          | locking request => exact nomatch inside
          | comparing request => rfl
          | refusing => rfl
          | pushing request => rfl
          | unlocking => rfl
          | posting => rfl
      | worker index =>
          obtain ⟨place, found, inside⟩ := (Option.any_eq_true _ _).mp here
          refine absurd ((Option.any_eq_true _ _).mpr ⟨place, found, ?_⟩)
            (settled (.worker index) rfl)
          cases place with
          | waiting => exact nomatch inside
          | locking => exact nomatch inside
          | testing => rfl
          | retreating => rfl
          | reading => rfl
          | popping request => rfl
          | unlocking request => rfl
          | processing request => exact nomatch inside

theorem outside (settled : Settled pool) (guarded : Guarded pool) :
    ∀ place ∈ pool.producers, place = .outside := by
  intro place member
  obtain ⟨index, found⟩ := List.getElem?_of_mem member
  have still : place.moves pool.owner.isNone = false := Bool.eq_false_iff.mpr fun moves =>
    settled (.producer index) rfl ((Option.any_eq_true _ _).mpr ⟨place, found, moves⟩)
  rw [settled.free guarded] at still
  cases place with
  | outside => rfl
  | locking request => exact nomatch still
  | comparing request => exact nomatch still
  | refusing => exact nomatch still
  | pushing request => exact nomatch still
  | unlocking => exact nomatch still
  | posting => exact nomatch still

theorem waiting (settled : Settled pool) (guarded : Guarded pool) :
    ∀ place ∈ pool.workers, place = .waiting ∧ pool.queuestat = 0 := by
  intro place member
  obtain ⟨index, found⟩ := List.getElem?_of_mem member
  have still : place.moves pool.owner.isNone (decide (0 < pool.queuestat)) = false :=
    Bool.eq_false_iff.mpr fun moves =>
      settled (.worker index) rfl ((Option.any_eq_true _ _).mpr ⟨place, found, moves⟩)
  rw [settled.free guarded] at still
  cases place with
  | waiting => exact ⟨rfl, Nat.eq_zero_of_not_pos (of_decide_eq_false still)⟩
  | locking => exact nomatch still
  | testing => exact nomatch still
  | retreating => exact nomatch still
  | reading => exact nomatch still
  | popping request => exact nomatch still
  | unlocking request => exact nomatch still
  | processing request => exact nomatch still

/-- All that was pushed has been popped. -/
theorem drained (settled : Settled pool) (guarded : Guarded pool) {atomic : ThreadPool ρ}
    (same : Abstracts pool atomic) {workers : Nat} (positive : 0 < workers)
    {done : List (PoolStep ρ)} (protocol : ThreadPool.Protocol workers done atomic) :
    pool.workqueue = [] ∧ atomic.pops.map Prod.snd = atomic.pushes := by
  have unposted : atomic.unposted = 0 := by
    unfold ThreadPool.unposted
    rw [same.producers]
    apply List.countP_eq_zero.mpr
    intro producer member
    obtain ⟨place, known, rfl⟩ := List.mem_map.mp member
    rw [settled.outside guarded place known]
    exact Bool.false_ne_true
  have woken : atomic.woken = 0 := by
    unfold ThreadPool.woken
    rw [same.workers]
    apply List.countP_eq_zero.mpr
    intro worker member
    obtain ⟨place, known, rfl⟩ := List.mem_map.mp member
    rw [(settled.waiting guarded place known).1]
    exact Bool.false_ne_true
  have unused : atomic.queuestat = 0 := by
    have size := protocol.size
    rw [same.workers, List.length_map] at size
    obtain ⟨place, member⟩ := List.exists_mem_of_length_pos (size ▸ positive)
    rw [same.queuestat]
    exact (settled.waiting guarded place member).2
  have covered := protocol.covered
  have empty : atomic.workqueue = [] := List.length_eq_zero_iff.mp (by omega)
  refine ⟨same.workqueue.symm.trans empty, ?_⟩
  rw [protocol.inOrder, empty, List.append_nil]

end Settled

/-- A forward step from a guarded pool uses up some of what is left. -/
theorem forward_uses (pool : LockedPool ρ) (step : LockedStep ρ)
    (related : ∃ atomic, Guarded pool ∧ Abstracts pool atomic)
    (meets : pool.Enabled step ∧ step.isForward = true) :
    ∃ next, pool.exec step = .ok next ∧ (∃ atomic, Guarded next ∧ Abstracts next atomic) ∧
      next.left < pool.left := by
  obtain ⟨atomic, guarded, same⟩ := related
  obtain ⟨next, atomic', executed, -, -, guarded', same'⟩ := matches_enabled guarded same meets.1
  exact ⟨next, executed, ⟨atomic', guarded', same'⟩, exec_left meets.2 meets.1 next executed⟩

end LockedPool

open LockedPool in
/-- From every state of every run the threads of the pool come to rest: unless `append` is
called or a wait is interrupted, they take no more steps than the bound says. And where they
are at rest, no thread has the mutex or waits for it, and the requests have all been popped
in the order in which they were pushed. -/
theorem threadPool_drains (maxRequests producers workers : Nat) (positive : 0 < workers)
    (schedule : List (LockedStep ρ))
    (enabled : StepsMeet Enabled exec (init maxRequests producers workers) schedule) :
    ∃ pool, runOps exec (init maxRequests producers workers) schedule = .ok pool ∧
      ∀ further : List (LockedStep ρ), (∀ step ∈ further, step.isForward = true) →
        StepsMeet Enabled exec pool further →
        further.length ≤
            12 * pool.producers.length + 6 * pool.workers.length + 7 * pool.queuestat ∧
          ∃ final atomic, runOps exec pool further = .ok final ∧
            runOps ThreadPool.exec (.init maxRequests producers workers)
              (commits exec commit (init maxRequests producers workers) (schedule ++ further)) =
                .ok atomic ∧
            (final.Settled →
              final.owner = none ∧ (∀ place ∈ final.producers, place = .outside) ∧
                (∀ place ∈ final.workers, place = .waiting) ∧ final.workqueue = [] ∧
                atomic.pops.map Prod.snd = atomic.pushes) := by
  obtain ⟨pool, atomic, done, -, -, guarded, same⟩ :=
    runOps_locked maxRequests producers workers enabled
  refine ⟨pool, done, fun further forward allowed => ⟨?_, ?_⟩⟩
  · have run := allowed.and (stepsMeet_of_mem pool forward)
    exact Nat.le_trans (run.length_le forward_uses ⟨atomic, guarded, same⟩) pool.left_le
  · obtain ⟨final, atomic', finished, atomicAllowed, atomicDone, guarded', same'⟩ :=
      runOps_locked maxRequests producers workers (stepsMeet_append enabled done allowed)
    obtain ⟨reached, atomicReached, protocol⟩ := runOps_keeps (ThreadPool.Protocol workers)
      (fun _ _ _ protocol enabled => protocol.exec enabled)
      (ThreadPool.protocol_init maxRequests producers workers) atomicAllowed
    obtain rfl : reached = atomic' := Except.ok.inj (atomicReached.symm.trans atomicDone)
    obtain ⟨last, lastDone⟩ : ∃ last, runOps exec pool further = .ok last := by
      obtain ⟨last, lastDone, -⟩ := runOps_preserves
        (fun state => ∃ atomic, Guarded state ∧ Abstracts state atomic)
        (fun state step related enabled => by
          obtain ⟨_, guarded, same⟩ := related
          obtain ⟨next, atomic', executed, -, -, related⟩ := matches_enabled guarded same enabled
          exact ⟨next, executed, atomic', related⟩)
        ⟨atomic, guarded, same⟩ allowed
      exact ⟨last, lastDone⟩
    obtain rfl : last = final := Except.ok.inj ((runOps_append done lastDone).symm.trans finished)
    refine ⟨last, reached, lastDone, atomicDone, fun settled => ?_⟩
    obtain ⟨empty, popped⟩ := settled.drained guarded' same' positive protocol
    exact ⟨settled.free guarded', settled.outside guarded',
      fun place member => (settled.waiting guarded' place member).1, empty, popped⟩

theorem threadPool_drains_sampleLockedSteps :
    ∃ pool, runOps LockedPool.exec (.init 1000 2 1) sampleLockedSteps = .ok pool ∧
      ∀ further : List (LockedStep Nat), (∀ step ∈ further, step.isForward = true) →
        StepsMeet LockedPool.Enabled LockedPool.exec pool further →
        further.length ≤
            12 * pool.producers.length + 6 * pool.workers.length + 7 * pool.queuestat ∧
          ∃ final atomic, runOps LockedPool.exec pool further = .ok final ∧
            runOps ThreadPool.exec (.init 1000 2 1)
              (commits LockedPool.exec LockedPool.commit (.init 1000 2 1)
                (sampleLockedSteps ++ further)) = .ok atomic ∧
            (final.Settled →
              final.owner = none ∧ (∀ place ∈ final.producers, place = .outside) ∧
                (∀ place ∈ final.workers, place = .waiting) ∧ final.workqueue = [] ∧
                atomic.pops.map Prod.snd = atomic.pushes) :=
  threadPool_drains 1000 2 1 (by decide) sampleLockedSteps (by decide)

end HPLinuxServer.Pool
