import HPLinuxServer.Concurrency.Mutex
import HPLinuxServer.Pool.ThreadPool

/-!
# Thread pool: its locks

`append` and `run` of `thread_pool.hpp` over the `locker` and the `sem` of `locker.h`,
where every call of the mutex and every access to `m_workqueue` is a step of its own.
-/

set_option autoImplicit false

namespace HPLinuxServer.Pool

open Memory Concurrency

inductive Thread where
  | producer (index : Nat)
  | worker (index : Nat)
  deriving DecidableEq, Repr

/-- Where a caller is in `append`. -/
inductive AppendPlace (ρ : Type) where
  | outside
  /-- in `m_queuelocker.lock()` -/
  | locking (request : Option ρ)
  /-- about to look at the size of the queue -/
  | comparing (request : Option ρ)
  /-- about to unlock and to return false -/
  | refusing
  | pushing (request : Option ρ)
  | unlocking
  | posting
  deriving DecidableEq, Repr

namespace AppendPlace

variable {ρ : Type}

/-- The thread has the mutex. -/
def inside : AppendPlace ρ → Bool
  | outside => false
  | locking _ => false
  | comparing _ => true
  | refusing => true
  | pushing _ => true
  | unlocking => true
  | posting => false

/-- The thread can take its next step, if the mutex is free or not. -/
def moves (free : Bool) : AppendPlace ρ → Bool
  | outside => false
  | locking _ => free
  | comparing _ => true
  | refusing => true
  | pushing _ => true
  | unlocking => true
  | posting => true

def isOutside : AppendPlace ρ → Bool
  | outside => true
  | locking _ => false
  | comparing _ => false
  | refusing => false
  | pushing _ => false
  | unlocking => false
  | posting => false

end AppendPlace

/-- Where a thread is in `run`. -/
inductive RunPlace (ρ : Type) where
  /-- in `m_queuestat.wait()` -/
  | waiting
  /-- in `m_queuelocker.lock()` -/
  | locking
  /-- about to call `m_workqueue.empty()` -/
  | testing
  /-- about to unlock and to wait again -/
  | retreating
  /-- about to call `m_workqueue.front()` -/
  | reading
  | popping (request : Option ρ)
  | unlocking (request : Option ρ)
  | processing (request : ρ)
  deriving DecidableEq, Repr

namespace RunPlace

variable {ρ : Type}

def inside : RunPlace ρ → Bool
  | waiting => false
  | locking => false
  | testing => true
  | retreating => true
  | reading => true
  | popping _ => true
  | unlocking _ => true
  | processing _ => false

/-- The thread can take its next step, if the mutex is free and the semaphore positive,
or not. -/
def moves (free positive : Bool) : RunPlace ρ → Bool
  | waiting => positive
  | locking => free
  | testing => true
  | retreating => true
  | reading => true
  | popping _ => true
  | unlocking _ => true
  | processing _ => true

def isWaiting : RunPlace ρ → Bool
  | waiting => true
  | locking => false
  | testing => false
  | retreating => false
  | reading => false
  | popping _ => false
  | unlocking _ => false
  | processing _ => false

/-- Behind the locked section a null request is skipped. -/
def taken : Option ρ → RunPlace ρ
  | none => waiting
  | some request => processing request

end RunPlace

/-- The pool with the owner of its mutex. -/
structure LockedPool (ρ : Type) where
  maxRequests : Nat
  workqueue : List (Option ρ)
  queuestat : Nat
  /-- the thread that has locked `m_queuelocker` -/
  owner : Option Thread
  producers : List (AppendPlace ρ)
  workers : List (RunPlace ρ)
  deriving DecidableEq, Repr

inductive LockedStep (ρ : Type) where
  /-- `append` is called -/
  | call (producer : Nat) (request : Option ρ)
  /-- the next step of that thread -/
  | producer (index : Nat)
  | worker (index : Nat)
  /-- `sem_wait` fails with EINTR -/
  | interrupted (worker : Nat)
  deriving DecidableEq, Repr

namespace LockedPool

variable {ρ : Type}

def init (maxRequests producers workers : Nat) : LockedPool ρ where
  maxRequests
  workqueue := []
  queuestat := 0
  owner := none
  producers := List.replicate producers .outside
  workers := List.replicate workers .waiting

def moveProducer (pool : LockedPool ρ) (index : Nat) (place : AppendPlace ρ) : LockedPool ρ :=
  { pool with producers := pool.producers.set index place }

def moveWorker (pool : LockedPool ρ) (index : Nat) (place : RunPlace ρ) : LockedPool ρ :=
  { pool with workers := pool.workers.set index place }

/-- `m_workqueue.front()` -/
def front (pool : LockedPool ρ) : Except Fault (Option ρ) :=
  match pool.workqueue with
  | [] => .error .outOfBounds
  | request :: _ => .ok request

/-- `m_workqueue.pop_front()` -/
def popFront (pool : LockedPool ρ) : Except Fault (LockedPool ρ) :=
  match pool.workqueue with
  | [] => .error .outOfBounds
  | _ :: rest => .ok { pool with workqueue := rest }

/-- The step of a producer from its place in `append`. -/
def append (pool : LockedPool ρ) (index : Nat) : AppendPlace ρ → LockedPool ρ
  | .outside => pool
  | .locking request =>
      { pool with owner := some (.producer index) }.moveProducer index (.comparing request)
  | .comparing request =>
      if pool.workqueue.length > pool.maxRequests then pool.moveProducer index .refusing
      else pool.moveProducer index (.pushing request)
  | .refusing => { pool with owner := none }.moveProducer index .outside
  | .pushing request =>
      { pool with workqueue := pool.workqueue ++ [request] }.moveProducer index .unlocking
  | .unlocking => { pool with owner := none }.moveProducer index .posting
  | .posting => { pool with queuestat := pool.queuestat + 1 }.moveProducer index .outside

/-- The step of a worker from its place in `run`. -/
def run (pool : LockedPool ρ) (index : Nat) : RunPlace ρ → Except Fault (LockedPool ρ)
  | .waiting => .ok ({ pool with queuestat := pool.queuestat - 1 }.moveWorker index .locking)
  | .locking => .ok ({ pool with owner := some (.worker index) }.moveWorker index .testing)
  | .testing =>
      if pool.workqueue.isEmpty then .ok (pool.moveWorker index .retreating)
      else .ok (pool.moveWorker index .reading)
  | .retreating => .ok ({ pool with owner := none }.moveWorker index .waiting)
  | .reading => do return pool.moveWorker index (.popping (← pool.front))
  | .popping request => do return (← pool.popFront).moveWorker index (.unlocking request)
  | .unlocking request =>
      .ok ({ pool with owner := none }.moveWorker index (RunPlace.taken request))
  | .processing _ => .ok (pool.moveWorker index .waiting)

def exec (pool : LockedPool ρ) : LockedStep ρ → Except Fault (LockedPool ρ)
  | .call producer request => .ok (pool.moveProducer producer (.locking request))
  | .producer index =>
      match pool.producers[index]? with
      | some place => .ok (pool.append index place)
      | none => .ok pool
  | .worker index =>
      match pool.workers[index]? with
      | some place => pool.run index place
      | none => .ok pool
  | .interrupted worker => .ok (pool.moveWorker worker .locking)

/-- The thread is where the step begins, and nothing blocks it. -/
def Enabled (pool : LockedPool ρ) : LockedStep ρ → Prop
  | .call producer _ => pool.producers[producer]?.any AppendPlace.isOutside = true
  | .producer index =>
      pool.producers[index]?.any (AppendPlace.moves pool.owner.isNone) = true
  | .worker index =>
      pool.workers[index]?.any
        (RunPlace.moves pool.owner.isNone (decide (0 < pool.queuestat))) = true
  | .interrupted worker => pool.workers[worker]?.any RunPlace.isWaiting = true

instance (pool : LockedPool ρ) : ∀ step, Decidable (pool.Enabled step)
  | .call _ _ => inferInstanceAs (Decidable (_ = true))
  | .producer _ => inferInstanceAs (Decidable (_ = true))
  | .worker _ => inferInstanceAs (Decidable (_ = true))
  | .interrupted _ => inferInstanceAs (Decidable (_ = true))

/-- The thread is in a locked section. -/
def inside (pool : LockedPool ρ) : Thread → Bool
  | .producer index => pool.producers[index]?.any AppendPlace.inside
  | .worker index => pool.workers[index]?.any RunPlace.inside

end LockedPool

end HPLinuxServer.Pool
