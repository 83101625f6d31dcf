import HPLinuxServer.Pool.ThreadPoolLocks
import HPLinuxServer.Pool.ThreadPoolProperties
import HPLinuxServer.Refinement.Stuttering

/-!
# Thread pool: the locked sections are atomic

Each locked section is matched by one step of the pool without a mutex, at the access
that changes the queue, or at the test after which nothing is changed.
-/

set_option autoImplicit false

namespace HPLinuxServer.Pool

open Memory Refinement Concurrency

variable {ρ : Type}

namespace AppendPlace

/-- Where the producer is for a pool whose locked sections are single steps. -/
def seen : AppendPlace ρ → Producer
  | outside => .outside
  | locking _ => .outside
  | comparing _ => .outside
  | refusing => .outside
  | pushing _ => .outside
  | unlocking => .pushed
  | posting => .pushed

/-- What the thread has found out about the queue. -/
def Knows (queue : List (Option ρ)) (maxRequests : Nat) : AppendPlace ρ → Prop
  | pushing _ => queue.length ≤ maxRequests
  | outside => True
  | locking _ => True
  | comparing _ => True
  | refusing => True
  | unlocking => True
  | posting => True

theorem knows_of_not_inside {place : AppendPlace ρ} (out : place.inside = false)
    (queue : List (Option ρ)) (maxRequests : Nat) : place.Knows queue maxRequests := by
  cases place with
  | pushing request => exact nomatch out
  | outside => trivial
  | locking request => trivial
  | comparing request => trivial
  | refusing => trivial
  | unlocking => trivial
  | posting => trivial

end AppendPlace

namespace RunPlace

def seen : RunPlace ρ → Worker ρ
  | waiting => .waiting
  | locking => .woken
  | testing => .woken
  | retreating => .waiting
  | reading => .woken
  | popping _ => .woken
  | unlocking request => Worker.taken request
  | processing request => .processing request

def Knows (queue : List (Option ρ)) : RunPlace ρ → Prop
  | reading => queue ≠ []
  | popping request => queue.head? = some request
  | waiting => True
  | locking => True
  | testing => True
  | retreating => True
  | unlocking _ => True
  | processing _ => True

theorem knows_of_not_inside {place : RunPlace ρ} (out : place.inside = false)
    (queue : List (Option ρ)) : place.Knows queue := by
  cases place with
  | reading => exact nomatch out
  | popping request => exact nomatch out
  | waiting => trivial
  | locking => trivial
  | testing => trivial
  | retreating => trivial
  | unlocking request => trivial
  | processing request => trivial

theorem seen_taken (request : Option ρ) : (taken request).seen = Worker.taken request := by
  cases request with
  | none => rfl
  | some request => rfl

theorem inside_taken (request : Option ρ) : (taken request).inside = false := by
  cases request with
  | none => rfl
  | some request => rfl

end RunPlace

namespace LockedPool

variable {pool : LockedPool ρ} {index : Nat}

/-- The step of the pool without a mutex that a step stands for. -/
def commit (pool : LockedPool ρ) : LockedStep ρ → Option (PoolStep ρ)
  | .call _ _ => none
  | .producer index =>
      match pool.producers[index]? with
      | some (.comparing request) =>
          if pool.workqueue.length > pool.maxRequests then some (.append index request) else none
      | some (.pushing request) => some (.append index request)
      | some .posting => some (.post index)
      | _ => none
  | .worker index =>
      match pool.workers[index]? with
      | some .waiting => some (.wait index)
      | some .testing => if pool.workqueue.isEmpty then some (.take index) else none
      | some (.popping _) => some (.take index)
      | some (.processing _) => some (.process index)
      | _ => none
  | .interrupted worker => some (.interrupted worker)

/-- The mutex keeps all threads but its owner out of the locked sections, and what a
thread there has found out is still true. -/
structure Guarded (pool : LockedPool ρ) : Prop where
  exclusive : Exclusive pool.inside pool.owner
  producers : ∀ (index : Nat) (place : AppendPlace ρ), pool.producers[index]? = some place →
    place.Knows pool.workqueue pool.maxRequests
  workers : ∀ (index : Nat) (place : RunPlace ρ), pool.workers[index]? = some place →
    place.Knows pool.workqueue

/-- The pool without a mutex, as it is at the same time. -/
structure Abstracts (pool : LockedPool ρ) (atomic : ThreadPool ρ) : Prop where
  maxRequests : atomic.maxRequests = pool.maxRequests
  workqueue : atomic.workqueue = pool.workqueue
  queuestat : atomic.queuestat = pool.queuestat
  producers : atomic.producers = pool.producers.map AppendPlace.seen
  workers : atomic.workers = pool.workers.map RunPlace.seen

/-! ## Moving one thread -/

theorem inside_producer {place : AppendPlace ρ} (found : pool.producers[index]? = some place) :
    pool.inside (.producer index) = place.inside := by
  unfold inside
  dsimp only
  rw [found]
  rfl

theorem inside_worker {place : RunPlace ρ} (found : pool.workers[index]? = some place) :
    pool.inside (.worker index) = place.inside := by
  unfold inside
  dsimp only
  rw [found]
  rfl

theorem inside_moveProducer {place : AppendPlace ρ} (found : pool.producers[index]? = some place)
    (next : AppendPlace ρ) :
    (pool.moveProducer index next).inside =
      Function.update pool.inside (.producer index) next.inside := by
  have inRange : index < pool.producers.length := (List.getElem?_eq_some_iff.mp found).1
  funext thread
  cases thread with
  | worker other => rw [Function.update_of_ne (by simp)]; rfl
  | producer other =>
      rcases Decidable.em (other = index) with rfl | apart
      · rw [Function.update_self]
        exact inside_producer (List.getElem?_set_self inRange)
      · rw [Function.update_of_ne (by simpa using apart)]
        exact congrArg (Option.any AppendPlace.inside) (List.getElem?_set_ne (Ne.symm apart))

theorem inside_moveWorker {place : RunPlace ρ} (found : pool.workers[index]? = some place)
    (next : RunPlace ρ) :
    (pool.moveWorker index next).inside =
      Function.update pool.inside (.worker index) next.inside := by
  have inRange : index < pool.workers.length := (List.getElem?_eq_some_iff.mp found).1
  funext thread
  cases thread with
  | producer other => rw [Function.update_of_ne (by simp)]; rfl
  | worker other =>
      rcases Decidable.em (other = index) with rfl | apart
      · rw [Function.update_self]
        exact inside_worker (List.getElem?_set_self inRange)
      · rw [Function.update_of_ne (by simpa using apart)]
        exact congrArg (Option.any RunPlace.inside) (List.getElem?_set_ne (Ne.symm apart))

namespace Guarded

variable {owner : Option Thread} {queue : List (Option ρ)} {queuestat : Nat}

/-- A thread inside is the only one there, so the others know nothing of the queue. -/
theorem knows_apart (guarded : Guarded pool) {thread : Thread}
    (owned : queue = pool.workqueue ∨ pool.inside thread = true) :
    (∀ (other : Nat) (place : AppendPlace ρ), Thread.producer other ≠ thread →
      pool.producers[other]? = some place → place.Knows queue pool.maxRequests) ∧
    ∀ (other : Nat) (place : RunPlace ρ), Thread.worker other ≠ thread →
      pool.workers[other]? = some place → place.Knows queue := by
  rcases owned with rfl | here
  · exact ⟨fun other place _ => guarded.producers other place,
      fun other place _ => guarded.workers other place⟩
  · constructor
    · intro other place apart found
      refine AppendPlace.knows_of_not_inside (Bool.eq_false_iff.mpr fun there => apart ?_) _ _
      exact guarded.exclusive.unique here ((inside_producer found).trans there)
    · intro other place apart found
      refine RunPlace.knows_of_not_inside (Bool.eq_false_iff.mpr fun there => apart ?_) _
      exact guarded.exclusive.unique here ((inside_worker found).trans there)

/-- A producer moves on; it changes the queue only if it has the mutex. -/
theorem moveProducer (guarded : Guarded pool) {place next : AppendPlace ρ}
    (found : pool.producers[index]? = some place)
    (exclusive : Exclusive (Function.update pool.inside (.producer index) next.inside) owner)
    (owned : queue = pool.workqueue ∨ pool.inside (.producer index) = true)
    (knows : next.Knows queue pool.maxRequests) :
    Guarded ({ pool with workqueue := queue, owner, queuestat }.moveProducer index next) where
  exclusive := by
    show Exclusive (pool.moveProducer index next).inside owner
    rw [inside_moveProducer found]
    exact exclusive
  producers := by
    intro other otherPlace moved
    rcases getElem?_move moved with ⟨-, rfl⟩ | ⟨apart, before⟩
    · exact knows
    · exact (guarded.knows_apart owned).1 other otherPlace (by simpa using apart) before
  workers := by
    intro other otherPlace before
    exact (guarded.knows_apart owned).2 other otherPlace (by simp) before

theorem moveWorker (guarded : Guarded pool) {place next : RunPlace ρ}
    (found : pool.workers[index]? = some place)
    (exclusive : Exclusive (Function.update pool.inside (.worker index) next.inside) owner)
    (owned : queue = pool.workqueue ∨ pool.inside (.worker index) = true)
    (knows : next.Knows queue) :
    Guarded ({ pool with workqueue := queue, owner, queuestat }.moveWorker index next) where
  exclusive := by
    show Exclusive (pool.moveWorker index next).inside owner
    rw [inside_moveWorker found]
    exact exclusive
  producers := by
    intro other otherPlace before
    exact (guarded.knows_apart owned).1 other otherPlace (by simp) before
  workers := by
    intro other otherPlace moved
    rcases getElem?_move moved with ⟨-, rfl⟩ | ⟨apart, before⟩
    · exact knows
    · exact (guarded.knows_apart owned).2 other otherPlace (by simpa using apart) before

end Guarded

namespace Abstracts

variable {atomic : ThreadPool ρ}

/-- A thread whose place looks the same moves unseen. -/
theorem moveProducer (same : Abstracts pool atomic) {place : AppendPlace ρ}
    (found : pool.producers[index]? = some place) (next : AppendPlace ρ)
    (unseen : next.seen = place.seen) (owner : Option Thread) : Abstracts ({ pool with owner }.moveProducer index next) atomic where
  maxRequests := same.maxRequests
  workqueue := same.workqueue
  queuestat := same.queuestat
  producers := by
    have looked : (pool.producers.map AppendPlace.seen)[index]? = some place.seen := by
      rw [List.getElem?_map, found]
      rfl
    obtain ⟨inside, value⟩ := List.getElem?_eq_some_iff.mp looked
    unfold LockedPool.moveProducer
    rw [same.producers, List.map_set, unseen, ← value, List.set_getElem_self]
  workers := same.workers

theorem moveWorker (same : Abstracts pool atomic) {place : RunPlace ρ}
    (found : pool.workers[index]? = some place) (next : RunPlace ρ)
    (unseen : next.seen = place.seen) (owner : Option Thread) : Abstracts ({ pool with owner }.moveWorker index next) atomic where
  maxRequests := same.maxRequests
  workqueue := same.workqueue
  queuestat := same.queuestat
  producers := same.producers
  workers := by
    have looked : (pool.workers.map RunPlace.seen)[index]? = some place.seen := by
      rw [List.getElem?_map, found]
      rfl
    obtain ⟨inside, value⟩ := List.getElem?_eq_some_iff.mp looked
    unfold LockedPool.moveWorker
    rw [same.workers, List.map_set, unseen, ← value, List.set_getElem_self]

theorem producer (same : Abstracts pool atomic) {place : AppendPlace ρ}
    (found : pool.producers[index]? = some place) :
    atomic.producers[index]? = some place.seen := by
  rw [same.producers, List.getElem?_map, found]
  rfl

theorem worker (same : Abstracts pool atomic) {place : RunPlace ρ}
    (found : pool.workers[index]? = some place) : atomic.workers[index]? = some place.seen := by
  rw [same.workers, List.getElem?_map, found]
  rfl

theorem set_producer (same : Abstracts pool atomic) (next : AppendPlace ρ) :
    atomic.producers.set index next.seen =
      (pool.producers.set index next).map AppendPlace.seen := by
  rw [same.producers, List.map_set]

theorem set_worker (same : Abstracts pool atomic) (next : RunPlace ρ) :
    atomic.workers.set index next.seen = (pool.workers.set index next).map RunPlace.seen := by
  rw [same.workers, List.map_set]

end Abstracts

/-! ## One step -/

/-- The step succeeds, and the step that it stands for leads to the same place. -/
def Matches (pool : LockedPool ρ) (atomic : ThreadPool ρ) (step : LockedStep ρ) : Prop :=
  ∃ next atomic', pool.exec step = .ok next ∧
    StepsMeet ThreadPool.Enabled ThreadPool.exec atomic (pool.commit step).toList ∧
    runOps ThreadPool.exec atomic (pool.commit step).toList = .ok atomic' ∧
    Guarded next ∧ Abstracts next atomic'

variable {atomic : ThreadPool ρ} {step : LockedStep ρ} {next : LockedPool ρ}

theorem matches_unseen (executed : pool.exec step = .ok next) (silent : pool.commit step = none)
    (guarded : Guarded next) (same : Abstracts next atomic) : Matches pool atomic step := by
  refine ⟨next, atomic, executed, ?_, ?_, guarded, same⟩
  · rw [silent]
    trivial
  · rw [silent]
    rfl

theorem matches_commit (atomicStep : PoolStep ρ) (atomic' : ThreadPool ρ)
    (executed : pool.exec step = .ok next) (stands : pool.commit step = some atomicStep)
    (enabled : atomic.Enabled atomicStep) (atomically : atomic.exec atomicStep = .ok atomic')
    (guarded : Guarded next) (same : Abstracts next atomic') : Matches pool atomic step := by
  refine ⟨next, atomic', executed, ?_, ?_, guarded, same⟩
  · rw [stands]
    refine ⟨enabled, ?_⟩
    simp only [atomically]
    trivial
  · rw [stands]
    simp only [Option.toList_some, runOps, atomically, ok_bind]

theorem exec_producer {place : AppendPlace ρ} (found : pool.producers[index]? = some place) :
    pool.exec (.producer index) = .ok (pool.append index place) := by
  unfold exec
  simp only [found]

theorem exec_worker {place : RunPlace ρ} (found : pool.workers[index]? = some place) :
    pool.exec (.worker index) = pool.run index place := by
  unfold exec
  simp only [found]

namespace Guarded

theorem stayProducer (guarded : Guarded pool) {place : AppendPlace ρ}
    (found : pool.producers[index]? = some place) (next : AppendPlace ρ) (same : next.inside = place.inside)
    (knows : next.Knows pool.workqueue pool.maxRequests) (queuestat : Nat) :
    Guarded ({ pool with queuestat }.moveProducer index next) :=
  guarded.moveProducer found
    (guarded.exclusive.stay (same.trans (inside_producer found).symm)) (.inl rfl) knows

theorem unlockProducer (guarded : Guarded pool) {place : AppendPlace ρ}
    (found : pool.producers[index]? = some place) (next : AppendPlace ρ) (here : place.inside = true)
    (out : next.inside = false) : Guarded ({ pool with owner := none }.moveProducer index next) :=
  guarded.moveProducer found
    (out ▸ guarded.exclusive.unlock ((inside_producer found).trans here)) (.inl rfl)
    (AppendPlace.knows_of_not_inside out _ _)

theorem stayWorker (guarded : Guarded pool) {place : RunPlace ρ}
    (found : pool.workers[index]? = some place) (next : RunPlace ρ) (same : next.inside = place.inside)
    (knows : next.Knows pool.workqueue) (queuestat : Nat) :
    Guarded ({ pool with queuestat }.moveWorker index next) :=
  guarded.moveWorker found
    (guarded.exclusive.stay (same.trans (inside_worker found).symm)) (.inl rfl) knows

theorem unlockWorker (guarded : Guarded pool) {place : RunPlace ρ}
    (found : pool.workers[index]? = some place) (next : RunPlace ρ) (here : place.inside = true)
    (out : next.inside = false) : Guarded ({ pool with owner := none }.moveWorker index next) :=
  guarded.moveWorker found
    (out ▸ guarded.exclusive.unlock ((inside_worker found).trans here)) (.inl rfl)
    (RunPlace.knows_of_not_inside out _)

end Guarded

theorem matches_producer (guarded : Guarded pool) (same : Abstracts pool atomic)
    {place : AppendPlace ρ} (found : pool.producers[index]? = some place)
    (moves : place.moves pool.owner.isNone = true) : Matches pool atomic (.producer index) := by
  have executed := exec_producer found
  cases place with
  | outside => exact nomatch moves
  | locking request =>
      have free : pool.owner = none := Option.isNone_iff_eq_none.mp moves
      refine matches_unseen executed (by simp only [commit, found]) ?_
        (same.moveProducer found (.comparing request) rfl _)
      exact guarded.moveProducer found ((free ▸ guarded.exclusive).lock _) (.inl rfl) trivial
  | comparing request =>
      have outside : atomic.Enabled (.append index request) := same.producer found
      dsimp only [append] at executed
      split at executed
      · next full =>
          have still : atomic.exec (.append index request) = .ok atomic := by
            refine congrArg Except.ok (if_pos ?_)
            rw [same.workqueue, same.maxRequests]
            exact full
          exact matches_commit _ atomic executed (by simp only [commit, found, if_pos full]) outside
            still (guarded.stayProducer found .refusing rfl trivial _)
            (same.moveProducer found .refusing rfl _)
      · next room =>
          exact matches_unseen executed (by simp only [commit, found, if_neg room])
            (guarded.stayProducer found (.pushing request) rfl (Nat.le_of_not_lt room) _)
            (same.moveProducer found (.pushing request) rfl _)
  | refusing =>
      exact matches_unseen executed (by simp only [commit, found])
        (guarded.unlockProducer found .outside rfl rfl) (same.moveProducer found .outside rfl _)
  | pushing request =>
      have outside : atomic.Enabled (.append index request) := same.producer found
      have room : ¬ atomic.workqueue.length > atomic.maxRequests := by
        rw [same.workqueue, same.maxRequests]
        exact Nat.not_lt.mpr (guarded.producers index _ found)
      refine matches_commit _ _ executed (by simp only [commit, found]) outside
        (congrArg Except.ok (if_neg room)) ?_ ?_
      · exact guarded.moveProducer found
          (guarded.exclusive.stay (inside_producer found).symm) (.inr (inside_producer found))
          trivial
      · exact ⟨same.maxRequests, congrArg (· ++ [request]) same.workqueue, same.queuestat,
          same.set_producer .unlocking, same.workers⟩
  | unlocking =>
      exact matches_unseen executed (by simp only [commit, found])
        (guarded.unlockProducer found .posting rfl rfl) (same.moveProducer found .posting rfl _)
  | posting =>
      have pushed : atomic.Enabled (.post index) := same.producer found
      refine matches_commit _ _ executed (by simp only [commit, found]) pushed rfl
        (guarded.stayProducer found .outside rfl trivial _) ?_
      exact ⟨same.maxRequests, same.workqueue, congrArg (· + 1) same.queuestat,
        same.set_producer .outside, same.workers⟩

theorem matches_worker (guarded : Guarded pool) (same : Abstracts pool atomic)
    {place : RunPlace ρ} (found : pool.workers[index]? = some place)
    (moves : place.moves pool.owner.isNone (decide (0 < pool.queuestat)) = true) :
    Matches pool atomic (.worker index) := by
  have executed := exec_worker found
  cases place with
  | waiting =>
      have positive : 0 < atomic.queuestat := same.queuestat ▸ of_decide_eq_true moves
      have ready : atomic.Enabled (.wait index) := ⟨same.worker found, positive⟩
      refine matches_commit _ _ executed (by simp only [commit, found]) ready rfl
        (guarded.stayWorker found .locking rfl trivial _) ?_
      exact ⟨same.maxRequests, same.workqueue, congrArg (· - 1) same.queuestat, same.producers,
        same.set_worker .locking⟩
  | locking =>
      have free : pool.owner = none := Option.isNone_iff_eq_none.mp moves
      refine matches_unseen executed (by simp only [commit, found]) ?_
        (same.moveWorker found .testing rfl _)
      exact guarded.moveWorker found ((free ▸ guarded.exclusive).lock _) (.inl rfl) trivial
  | testing =>
      have woken : atomic.Enabled (.take index) := same.worker found
      dsimp only [run] at executed
      split at executed
      · next empty =>
          have nothing : atomic.workqueue.isEmpty = true := same.workqueue ▸ empty
          refine matches_commit _ _ executed (by simp only [commit, found, if_pos empty]) woken
            (if_pos nothing) (guarded.stayWorker found .retreating rfl trivial _) ?_
          exact ⟨same.maxRequests, same.workqueue, same.queuestat, same.producers,
            same.set_worker .retreating⟩
      · next filled =>
          have something : pool.workqueue ≠ [] := fun empty =>
            filled (List.isEmpty_iff.mpr empty)
          exact matches_unseen executed (by simp only [commit, found, if_neg filled])
            (guarded.stayWorker found .reading rfl something _)
            (same.moveWorker found .reading rfl _)
  | retreating =>
      exact matches_unseen executed (by simp only [commit, found])
        (guarded.unlockWorker found .waiting rfl rfl) (same.moveWorker found .waiting rfl _)
  | reading =>
      obtain ⟨request, rest, filled⟩ := List.exists_cons_of_ne_nil (guarded.workers index _ found)
      have read : pool.front = .ok request := by
        unfold front
        rw [filled]
      have first : pool.workqueue.head? = some request := by
        rw [filled]
        rfl
      dsimp only [run] at executed
      rw [read, ok_bind] at executed
      exact matches_unseen executed (by simp only [commit, found])
        (guarded.stayWorker found (.popping request) rfl first _)
        (same.moveWorker found (.popping request) rfl _)
  | popping request =>
      have woken : atomic.Enabled (.take index) := same.worker found
      obtain ⟨rest, filled⟩ := List.head?_eq_some_iff.mp (guarded.workers index _ found)
      have queue : atomic.workqueue = request :: rest := same.workqueue.trans filled
      have popped : pool.popFront = .ok { pool with workqueue := rest } := by
        unfold popFront
        rw [filled]
      have taken : atomic.exec (.take index) = .ok { atomic with
          workqueue := rest
          workers := atomic.workers.set index (Worker.taken request)
          pops := atomic.pops ++ [(index, request)] } := by
        unfold ThreadPool.exec ThreadPool.take ThreadPool.front
        simp [queue]
      dsimp only [run] at executed
      rw [popped, ok_bind] at executed
      refine matches_commit _ _ executed (by simp only [commit, found]) woken taken ?_ ?_
      · exact guarded.moveWorker found (guarded.exclusive.stay (inside_worker found).symm)
          (.inr (inside_worker found)) trivial
      · exact ⟨same.maxRequests, rfl, same.queuestat, same.producers,
          same.set_worker (.unlocking request)⟩
  | unlocking request =>
      exact matches_unseen executed (by simp only [commit, found])
        (guarded.unlockWorker found (.taken request) rfl (RunPlace.inside_taken request))
        (same.moveWorker found (.taken request) (RunPlace.seen_taken request) _)
  | processing request =>
      have busy : atomic.Enabled (.process index) := by
        show atomic.workers[index]?.any Worker.isProcessing = true
        rw [same.worker found]
        rfl
      refine matches_commit _ _ executed (by simp only [commit, found]) busy rfl
        (guarded.stayWorker found .waiting rfl trivial _) ?_
      exact ⟨same.maxRequests, same.workqueue, same.queuestat, same.producers,
        same.set_worker .waiting⟩

theorem matches_call (guarded : Guarded pool) (same : Abstracts pool atomic)
    {request : Option ρ} (enabled : pool.Enabled (.call index request)) :
    Matches pool atomic (.call index request) := by
  obtain ⟨place, found, outside⟩ := (Option.any_eq_true _ _).mp enabled
  cases place with
  | outside =>
      exact matches_unseen rfl rfl (guarded.stayProducer found (.locking request) rfl trivial _)
        (same.moveProducer found (.locking request) rfl _)
  | locking request => exact nomatch outside
  | comparing request => exact nomatch outside
  | refusing => exact nomatch outside
  | pushing request => exact nomatch outside
  | unlocking => exact nomatch outside
  | posting => exact nomatch outside

theorem matches_interrupted (guarded : Guarded pool) (same : Abstracts pool atomic)
    (enabled : pool.Enabled (.interrupted index)) : Matches pool atomic (.interrupted index) := by
  obtain ⟨place, found, waits⟩ := (Option.any_eq_true _ _).mp enabled
  cases place with
  | waiting =>
      have waiting : atomic.Enabled (.interrupted index) := same.worker found
      refine matches_commit _ _ rfl rfl waiting rfl
        (guarded.stayWorker found .locking rfl trivial _) ?_
      exact ⟨same.maxRequests, same.workqueue, same.queuestat, same.producers,
        same.set_worker .locking⟩
  | locking => exact nomatch waits
  | testing => exact nomatch waits
  | retreating => exact nomatch waits
  | reading => exact nomatch waits
  | popping request => exact nomatch waits
  | unlocking request => exact nomatch waits
  | processing request => exact nomatch waits

theorem matches_enabled (guarded : Guarded pool) (same : Abstracts pool atomic)
    (enabled : pool.Enabled step) : Matches pool atomic step := by
  cases step with
  | call producer request => exact matches_call guarded same enabled
  | producer index =>
      obtain ⟨place, found, moves⟩ := (Option.any_eq_true _ _).mp enabled
      exact matches_producer guarded same found moves
  | worker index =>
      obtain ⟨place, found, moves⟩ := (Option.any_eq_true _ _).mp enabled
      exact matches_worker guarded same found moves
  | interrupted worker => exact matches_interrupted guarded same enabled

theorem guarded_init (maxRequests producers workers : Nat) :
    Guarded (init maxRequests producers workers : LockedPool ρ) where
  exclusive := by
    intro thread
    cases thread with
    | producer index =>
        simp only [inside, init, List.getElem?_replicate]
        split <;> simp [AppendPlace.inside]
    | worker index =>
        simp only [inside, init, List.getElem?_replicate]
        split <;> simp [RunPlace.inside]
  producers := by
    intro index place found
    cases List.eq_of_mem_replicate (List.mem_of_getElem? found)
    trivial
  workers := by
    intro index place found
    cases List.eq_of_mem_replicate (List.mem_of_getElem? found)
    trivial

theorem abstracts_init (maxRequests producers workers : Nat) :
    Abstracts (init maxRequests producers workers : LockedPool ρ)
      (ThreadPool.init maxRequests producers workers) where
  maxRequests := rfl
  workqueue := rfl
  queuestat := rfl
  producers := by simp [ThreadPool.init, init, AppendPlace.seen]
  workers := by simp [ThreadPool.init, init, RunPlace.seen]

/-- What a run of the pool and the run that it stands for come to. -/
theorem runOps_locked (maxRequests producers workers : Nat) {schedule : List (LockedStep ρ)}
    (enabled : StepsMeet Enabled exec (init maxRequests producers workers) schedule) :
    ∃ pool atomic, runOps exec (init maxRequests producers workers) schedule = .ok pool ∧
      StepsMeet ThreadPool.Enabled ThreadPool.exec (.init maxRequests producers workers)
        (commits exec commit (init maxRequests producers workers) schedule) ∧
      runOps ThreadPool.exec (.init maxRequests producers workers)
        (commits exec commit (init maxRequests producers workers) schedule) = .ok atomic ∧
      Guarded pool ∧ Abstracts pool atomic :=
  runOps_commits (fun _ _ _ related step => matches_enabled related.1 related.2 step)
    ⟨guarded_init maxRequests producers workers, abstracts_init maxRequests producers workers⟩
    enabled

end LockedPool

open LockedPool in
/-- Whatever the threads do in whatever order, the owner of the mutex is the only one in a
locked section, nobody reads or pops from an empty queue, and the pool is where the pool
with atomic locked sections is after the steps that were committed. -/
theorem threadPool_atomicSections (maxRequests producers workers : Nat)
    (schedule : List (LockedStep ρ))
    (enabled : StepsMeet Enabled exec (init maxRequests producers workers) schedule) :
    ∃ pool atomic, runOps exec (init maxRequests producers workers) schedule = .ok pool ∧
      (∀ thread, pool.inside thread = true ↔ pool.owner = some thread) ∧
      StepsMeet ThreadPool.Enabled ThreadPool.exec (.init maxRequests producers workers)
        (commits exec commit (init maxRequests producers workers) schedule) ∧
      runOps ThreadPool.exec (.init maxRequests producers workers)
        (commits exec commit (init maxRequests producers workers) schedule) = .ok atomic ∧
      Abstracts pool atomic := by
  obtain ⟨pool, atomic, done, allowed, reached, guarded, same⟩ :=
    runOps_locked maxRequests producers workers enabled
  exact ⟨pool, atomic, done, guarded.exclusive, allowed, reached, same⟩

/-- The second producer waits for the mutex; the worker, whose wait is interrupted, takes
the request of the first one before it is posted. -/
def sampleLockedSteps : List (LockedStep Nat) :=
  [.call 0 (some 7), .call 1 none, .interrupted 0, .producer 0, .producer 0, .producer 0,
    .producer 0, .worker 0, .worker 0, .worker 0, .worker 0, .worker 0, .producer 1, .producer 0,
    .worker 0, .producer 1, .worker 0]

theorem threadPool_atomicSections_sampleLockedSteps :
    ∃ pool atomic,
      runOps LockedPool.exec (.init 1000 2 1) sampleLockedSteps = .ok pool ∧
      (∀ thread, pool.inside thread = true ↔ pool.owner = some thread) ∧
      StepsMeet ThreadPool.Enabled ThreadPool.exec (.init 1000 2 1)
        (commits LockedPool.exec LockedPool.commit (.init 1000 2 1) sampleLockedSteps) ∧
      runOps ThreadPool.exec (.init 1000 2 1)
        (commits LockedPool.exec LockedPool.commit (.init 1000 2 1) sampleLockedSteps) =
          .ok atomic ∧
      LockedPool.Abstracts pool atomic :=
  threadPool_atomicSections 1000 2 1 sampleLockedSteps (by decide)

end HPLinuxServer.Pool
