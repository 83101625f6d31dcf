import HPLinuxServer.Memory.Heap

/-!
# Thread pool

`threadpool` of `thread_pool.hpp` with its queue, its mutex and its semaphore. Any
number of producers call `append`, any number of workers execute `run`; one step is
one thread's next action. Whoever holds the mutex is the only thread in a locked
section, so each of them is a single step. `m_stop` stays false until the pool is
destroyed; the destructor is left out.
-/

set_option autoImplicit false

namespace HPLinuxServer.Pool

open Memory

/-- Where a caller of `append` is. -/
inductive Producer where
  | outside
  /-- it has left the locked section and has not called `post` yet -/
  | pushed
  deriving DecidableEq, Repr

def Producer.hasPushed : Producer → Bool
  | outside => false
  | pushed => true

/-- Where a worker in `run` is. -/
inductive Worker (ρ : Type) where
  /-- it is in `m_queuestat.wait()` -/
  | waiting
  /-- that has returned, and the worker does not have the mutex yet -/
  | woken
  | processing (request : ρ)
  deriving DecidableEq, Repr

namespace Worker

variable {ρ : Type}

def isWoken : Worker ρ → Bool
  | woken => true
  | waiting => false
  | processing _ => false

def isProcessing : Worker ρ → Bool
  | processing _ => true
  | waiting => false
  | woken => false

/-- The worker behind its locked section; a null request is skipped. -/
def taken : Option ρ → Worker ρ
  | none => waiting
  | some request => processing request

end Worker

/-- A pool whose requests are pointers to `ρ`. What was pushed and popped so far, and
how often the queue was found empty, is recorded besides the members. -/
structure ThreadPool (ρ : Type) where
  maxRequests : Nat
  workqueue : List (Option ρ)
  queuestat : Nat
  producers : List Producer
  workers : List (Worker ρ)
  /-- the requests in the order in which they were pushed -/
  pushes : List (Option ρ)
  /-- the requests in the order in which they were popped, with their workers -/
  pops : List (Nat × Option ρ)
  foundEmpty : Nat

inductive PoolStep (ρ : Type) where
  /-- `append`, from its call to the end of its locked section -/
  | append (producer : Nat) (request : Option ρ)
  | post (producer : Nat)
  | wait (worker : Nat)
  /-- `sem_wait` fails with EINTR, and `run` does not look at its result -/
  | interrupted (worker : Nat)
  /-- the locked section of `run` -/
  | take (worker : Nat)
  /-- `process` of the request returns -/
  | process (worker : Nat)
  deriving DecidableEq, Repr

namespace ThreadPool

variable {ρ : Type}

/-- `m_max_requests` is never set from the constructor's argument, so it is any number. -/
def init (maxRequests producers workers : Nat) : ThreadPool ρ where
  maxRequests
  workqueue := []
  queuestat := 0
  producers := List.replicate producers .outside
  workers := List.replicate workers .waiting
  pushes := []
  pops := []
  foundEmpty := 0

/-- `m_workqueue.front()` -/
def front (pool : ThreadPool ρ) : Except Fault (Option ρ) :=
  match pool.workqueue with
  | [] => .error .outOfBounds
  | request :: _ => .ok request

/-- The locked section of `append`, which returns false if the queue is too long. -/
def append (pool : ThreadPool ρ) (producer : Nat) (request : Option ρ) : ThreadPool ρ :=
  if pool.workqueue.length > pool.maxRequests then pool
  else { pool with
    workqueue := pool.workqueue ++ [request]
    producers := pool.producers.set producer .pushed
    pushes := pool.pushes ++ [request] }

def post (pool : ThreadPool ρ) (producer : Nat) : ThreadPool ρ :=
  { pool with
    queuestat := pool.queuestat + 1
    producers := pool.producers.set producer .outside }

def wait (pool : ThreadPool ρ) (worker : Nat) : ThreadPool ρ :=
  { pool with
    queuestat := pool.queuestat - 1
    workers := pool.workers.set worker .woken }

def interrupted (pool : ThreadPool ρ) (worker : Nat) : ThreadPool ρ :=
  { pool with workers := pool.workers.set worker .woken }

/-- The locked section of `run`. -/
def take (pool : ThreadPool ρ) (worker : Nat) : Except Fault (ThreadPool ρ) :=
  if pool.workqueue.isEmpty then
    .ok { pool with
      workers := pool.workers.set worker .waiting
      foundEmpty := pool.foundEmpty + 1 }
  else do
    let request ← pool.front
    return { pool with
      workqueue := pool.workqueue.tail
      workers := pool.workers.set worker (Worker.taken request)
      pops := pool.pops ++ [(worker, request)] }

def process (pool : ThreadPool ρ) (worker : Nat) : ThreadPool ρ :=
  { pool with workers := pool.workers.set worker .waiting }

/-- The thread of the step is where the step begins, and nothing blocks it. -/
def Enabled (pool : ThreadPool ρ) : PoolStep ρ → Prop
  | .append producer _ => pool.producers[producer]? = some .outside
  | .post producer => pool.producers[producer]? = some .pushed
  | .wait worker => pool.workers[worker]? = some .waiting ∧ 0 < pool.queuestat
  | .interrupted worker => pool.workers[worker]? = some .waiting
  | .take worker => pool.workers[worker]? = some .woken
  | .process worker => pool.workers[worker]?.any Worker.isProcessing = true

instance [DecidableEq ρ] (pool : ThreadPool ρ) : ∀ step, Decidable (pool.Enabled step)
  | .append producer _ => inferInstanceAs (Decidable (pool.producers[producer]? = some .outside))
  | .post producer => inferInstanceAs (Decidable (pool.producers[producer]? = some .pushed))
  | .wait worker =>
      inferInstanceAs (Decidable (pool.workers[worker]? = some .waiting ∧ 0 < pool.queuestat))
  | .interrupted worker => inferInstanceAs (Decidable (pool.workers[worker]? = some .waiting))
  | .take worker => inferInstanceAs (Decidable (pool.workers[worker]? = some .woken))
  | .process worker =>
      inferInstanceAs (Decidable (pool.workers[worker]?.any Worker.isProcessing = true))

def exec (pool : ThreadPool ρ) : PoolStep ρ → Except Fault (ThreadPool ρ)
  | .append producer request => .ok (pool.append producer request)
  | .post producer => .ok (pool.post producer)
  | .wait worker => .ok (pool.wait worker)
  | .interrupted worker => .ok (pool.interrupted worker)
  | .take worker => pool.take worker
  | .process worker => .ok (pool.process worker)

/-- The producers that have pushed and not posted. -/
def unposted (pool : ThreadPool ρ) : Nat := pool.producers.countP Producer.hasPushed

/-- The workers that are past their wait and before their locked section. -/
def woken (pool : ThreadPool ρ) : Nat := pool.workers.countP Worker.isWoken

end ThreadPool

end HPLinuxServer.Pool
