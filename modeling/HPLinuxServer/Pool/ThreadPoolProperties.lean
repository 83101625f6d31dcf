import HPLinuxServer.Concurrency.ThreadTable
import HPLinuxServer.Pool.ThreadPool
import HPLinuxServer.Refinement.Runs

/-!
# Thread pool: the queue protocol

A request in the queue is covered by the semaphore, by a worker on its way to the
queue, or by the producer that has not posted yet. Interrupted waits bring further
workers to the queue, which then may find it empty.
-/

set_option autoImplicit false

namespace HPLinuxServer.Pool

open Memory Refinement Concurrency

variable {ρ : Type}

namespace ThreadPool

/-- What holds between any two steps. -/
structure Protocol (workers : Nat) (done : List (PoolStep ρ)) (pool : ThreadPool ρ) : Prop where
  covered : pool.workqueue.length ≤ pool.queuestat + pool.woken + pool.unposted
  inOrder : pool.pushes = pool.pops.map Prod.snd ++ pool.workqueue
  handled : ∀ worker request, pool.workers[worker]? = some (.processing request) →
    (worker, some request) ∈ pool.pops
  size : pool.workers.length = workers
  exact : (∀ worker, .interrupted worker ∉ done) →
    pool.workqueue.length = pool.queuestat + pool.woken + pool.unposted ∧ pool.foundEmpty = 0

/-- Only new requests and interruptions can still make a thread move. -/
def Settled (pool : ThreadPool ρ) : Prop :=
  ∀ step, pool.Enabled step →
    (∃ producer request, step = .append producer request) ∨ ∃ worker, step = .interrupted worker

theorem protocol_init (maxRequests producers workers : Nat) :
    Protocol workers [] (init maxRequests producers workers : ThreadPool ρ) where
  covered := Nat.zero_le _
  inOrder := rfl
  handled := by
    intro worker request found
    have member := List.mem_of_getElem? found
    exact nomatch List.eq_of_mem_replicate member
  size := List.length_replicate
  exact := by
    intro _
    refine ⟨?_, rfl⟩
    unfold init woken unposted
    simp [List.countP_replicate, Worker.isWoken, Producer.hasPushed]

namespace Protocol

variable {workers : Nat} {done : List (PoolStep ρ)} {pool : ThreadPool ρ}

/-- Without an interruption among all steps there is none among those before. -/
theorem exactly (protocol : Protocol workers done pool) {step : PoolStep ρ}
    (calm : ∀ worker, .interrupted worker ∉ done ++ [step]) :
    pool.workqueue.length = pool.queuestat + pool.woken + pool.unposted ∧ pool.foundEmpty = 0 :=
  protocol.exact fun worker member => calm worker (List.mem_append_left _ member)

/-- A step that leaves as many requests without a token as there were. -/
theorem next (protocol : Protocol workers done pool) {step : PoolStep ρ} {pool' : ThreadPool ρ}
    (balanced : pool'.workqueue.length + (pool.queuestat + pool.woken + pool.unposted) =
      pool.workqueue.length + (pool'.queuestat + pool'.woken + pool'.unposted))
    (same : pool'.foundEmpty = pool.foundEmpty)
    (inOrder : pool'.pushes = pool'.pops.map Prod.snd ++ pool'.workqueue)
    (handled : ∀ worker request, pool'.workers[worker]? = some (.processing request) →
      (worker, some request) ∈ pool'.pops)
    (size : pool'.workers.length = workers) : Protocol workers (done ++ [step]) pool' where
  covered := by
    have covered := protocol.covered
    omega
  inOrder := inOrder
  handled := handled
  size := size
  exact := by
    intro calm
    obtain ⟨exact, allTaken⟩ := protocol.exactly calm
    exact ⟨by omega, same.trans allTaken⟩

theorem append (protocol : Protocol workers done pool) {producer : Nat} {request : Option ρ}
    (enabled : pool.Enabled (.append producer request)) :
    Protocol workers (done ++ [.append producer request]) (pool.append producer request) := by
  unfold ThreadPool.append
  split
  · exact { protocol with exact := protocol.exactly }
  · have counted : (pool.producers.set producer .pushed).countP Producer.hasPushed =
        pool.unposted + 1 :=
      countP_move Producer.hasPushed enabled .pushed
    have pushed : (pool.workqueue ++ [request]).length = pool.workqueue.length + 1 := by simp
    refine protocol.next ?_ rfl ?_ protocol.handled protocol.size
    · unfold unposted woken at *
      simp only [counted, pushed]
      omega
    · simp only [protocol.inOrder, List.append_assoc]

theorem post (protocol : Protocol workers done pool) {producer : Nat}
    (enabled : pool.Enabled (.post producer)) :
    Protocol workers (done ++ [.post producer]) (pool.post producer) := by
  have counted : (pool.producers.set producer .outside).countP Producer.hasPushed + 1 =
      pool.unposted :=
    countP_move Producer.hasPushed enabled .outside
  unfold ThreadPool.post
  refine protocol.next ?_ rfl protocol.inOrder protocol.handled protocol.size
  unfold unposted woken at *
  simp only
  omega

theorem handled_move (protocol : Protocol workers done pool) {worker : Nat} {next : Worker ρ}
    (free : ∀ request, next ≠ .processing request) (other : Nat) (request : ρ)
    (found : (pool.workers.set worker next)[other]? = some (.processing request)) :
    (other, some request) ∈ pool.pops := by
  rcases getElem?_move found with ⟨-, same⟩ | ⟨-, before⟩
  · exact absurd same.symm (free request)
  · exact protocol.handled other request before

theorem wait (protocol : Protocol workers done pool) {worker : Nat}
    (enabled : pool.Enabled (.wait worker)) :
    Protocol workers (done ++ [.wait worker]) (pool.wait worker) := by
  obtain ⟨found, positive⟩ := enabled
  have counted : (pool.workers.set worker .woken).countP Worker.isWoken = pool.woken + 1 :=
    countP_move Worker.isWoken found .woken
  unfold ThreadPool.wait
  refine protocol.next ?_ rfl protocol.inOrder
    (protocol.handled_move fun _ same => nomatch same) (List.length_set.trans protocol.size)
  unfold unposted woken at *
  simp only
  omega

theorem interrupted (protocol : Protocol workers done pool) {worker : Nat}
    (enabled : pool.Enabled (.interrupted worker)) :
    Protocol workers (done ++ [.interrupted worker]) (pool.interrupted worker) := by
  have counted : (pool.workers.set worker .woken).countP Worker.isWoken = pool.woken + 1 :=
    countP_move Worker.isWoken enabled .woken
  unfold ThreadPool.interrupted
  constructor
  · have covered := protocol.covered
    unfold unposted woken at *
    simp only
    omega
  · exact protocol.inOrder
  · exact protocol.handled_move (fun _ same => nomatch same)
  · exact List.length_set.trans protocol.size
  · intro calm
    exact absurd (List.mem_append_right done List.mem_cons_self) (calm worker)

/-- The locked section of `run` takes the first request, or there is none and some wait
was interrupted. -/
theorem take (protocol : Protocol workers done pool) {worker : Nat}
    (enabled : pool.Enabled (.take worker)) :
    ∃ pool', pool.take worker = .ok pool' ∧
      Protocol workers (done ++ [.take worker]) pool' := by
  cases queue : pool.workqueue with
  | nil =>
      have counted : (pool.workers.set worker .waiting).countP Worker.isWoken + 1 = pool.woken :=
        countP_move Worker.isWoken enabled .waiting
      refine ⟨_, by unfold ThreadPool.take; rw [if_pos (by rw [queue]; rfl)], ?_⟩
      constructor
      · simp only [queue, List.length_nil]
        exact Nat.zero_le _
      · exact protocol.inOrder
      · exact protocol.handled_move (fun _ same => nomatch same)
      · exact List.length_set.trans protocol.size
      · intro calm
        obtain ⟨exact, -⟩ := protocol.exactly calm
        rw [queue, List.length_nil] at exact
        omega
  | cons request rest =>
      have free : (Worker.taken request).isWoken = false := by
        cases request with
        | none => rfl
        | some request => rfl
      have counted : (pool.workers.set worker (Worker.taken request)).countP Worker.isWoken + 1 =
          pool.woken := by
        have moved := countP_move Worker.isWoken enabled (Worker.taken request)
        rw [free] at moved
        exact moved
      refine ⟨{ pool with
        workqueue := rest
        workers := pool.workers.set worker (Worker.taken request)
        pops := pool.pops ++ [(worker, request)] }, ?_, ?_⟩
      · unfold ThreadPool.take front
        rw [if_neg (by rw [queue]; exact Bool.false_ne_true)]
        simp only [queue, ok_bind, List.tail_cons, pure_eq_ok]
      · refine protocol.next ?_ rfl ?_ ?_ (List.length_set.trans protocol.size)
        · rw [queue, List.length_cons]
          unfold unposted woken at *
          simp only
          omega
        · simp only [protocol.inOrder, queue, List.map_append, List.map_cons, List.map_nil,
            List.append_assoc, List.cons_append, List.nil_append]
        · intro other held found
          rcases getElem?_move found with ⟨rfl, same⟩ | ⟨-, before⟩
          · cases request with
            | none => exact nomatch same
            | some request =>
                cases same
                exact List.mem_append_right _ List.mem_cons_self
          · exact List.mem_append_left _ (protocol.handled other held before)

theorem process (protocol : Protocol workers done pool) {worker : Nat}
    (enabled : pool.Enabled (.process worker)) :
    Protocol workers (done ++ [.process worker]) (pool.process worker) := by
  obtain ⟨place, found, busy⟩ := Option.any_eq_true _ _ |>.mp enabled
  have counted : (pool.workers.set worker .waiting).countP Worker.isWoken = pool.woken := by
    cases place with
    | processing request => exact countP_move Worker.isWoken found .waiting
    | waiting => exact nomatch busy
    | woken => exact nomatch busy
  unfold ThreadPool.process
  refine protocol.next ?_ rfl protocol.inOrder
    (protocol.handled_move fun _ same => nomatch same) (List.length_set.trans protocol.size)
  unfold unposted woken at *
  simp only
  omega

theorem exec (protocol : Protocol workers done pool) {step : PoolStep ρ}
    (enabled : pool.Enabled step) :
    ∃ pool', pool.exec step = .ok pool' ∧ Protocol workers (done ++ [step]) pool' := by
  cases step with
  | append producer request => exact ⟨_, rfl, protocol.append enabled⟩
  | post producer => exact ⟨_, rfl, protocol.post enabled⟩
  | wait worker => exact ⟨_, rfl, protocol.wait enabled⟩
  | interrupted worker => exact ⟨_, rfl, protocol.interrupted enabled⟩
  | take worker => exact protocol.take enabled
  | process worker => exact ⟨_, rfl, protocol.process enabled⟩

theorem settled (protocol : Protocol workers done pool) (atLeastOne : 0 < workers)
    (settled : pool.Settled) : pool.workqueue = [] := by
  have noProducer : pool.unposted = 0 := by
    apply List.countP_eq_zero.mpr
    intro producer member pushed
    obtain ⟨index, found⟩ := List.getElem?_of_mem member
    cases producer with
    | outside => exact nomatch pushed
    | pushed =>
        rcases settled (.post index) found with ⟨_, _, same⟩ | ⟨_, same⟩
        · exact nomatch same
        · exact nomatch same
  have allWaiting : ∀ worker ∈ pool.workers, worker = .waiting := by
    intro worker member
    obtain ⟨index, found⟩ := List.getElem?_of_mem member
    cases worker with
    | waiting => rfl
    | woken =>
        rcases settled (.take index) found with ⟨_, _, same⟩ | ⟨_, same⟩
        · exact nomatch same
        · exact nomatch same
    | processing request =>
        have enabled : pool.Enabled (.process index) :=
          (Option.any_eq_true _ _).mpr ⟨_, found, rfl⟩
        rcases settled (.process index) enabled with ⟨_, _, same⟩ | ⟨_, same⟩
        · exact nomatch same
        · exact nomatch same
  have noWorker : pool.woken = 0 := by
    apply List.countP_eq_zero.mpr
    intro worker member
    rw [allWaiting worker member]
    exact Bool.false_ne_true
  have noPost : pool.queuestat = 0 := by
    by_contra positive
    obtain ⟨first, rest, workers⟩ : ∃ first rest, pool.workers = first :: rest :=
      List.exists_cons_of_length_pos (by rw [protocol.size]; exact atLeastOne)
    have waits : pool.workers[0]? = some .waiting := by
      rw [← allWaiting first (by rw [workers]; exact List.mem_cons_self), workers]
      rfl
    rcases settled (.wait 0) ⟨waits, Nat.pos_of_ne_zero positive⟩ with ⟨_, _, same⟩ | ⟨_, same⟩
    · exact nomatch same
    · exact nomatch same
  apply List.length_eq_zero_iff.mp
  have covered := protocol.covered
  omega

end Protocol

end ThreadPool

open ThreadPool in
/-- No run of producers and workers takes from an empty queue. In every state that is
reached the requests in the queue are covered; the requests were popped in the order
of their pushes, each once; a settled pool has popped them all; and without an
interrupted wait no worker finds the queue empty. -/
theorem threadPool_protocol (maxRequests producers workers : Nat) (schedule : List (PoolStep ρ))
    (enabled : StepsMeet Enabled exec (init maxRequests producers workers) schedule) :
    ∃ pool, runOps exec (init maxRequests producers workers) schedule = .ok pool ∧
      pool.workqueue.length ≤ pool.queuestat + pool.woken + pool.unposted ∧
      pool.pushes = pool.pops.map Prod.snd ++ pool.workqueue ∧
      (∀ worker request, pool.workers[worker]? = some (.processing request) →
        (worker, some request) ∈ pool.pops) ∧
      (0 < workers → pool.Settled → pool.pops.map Prod.snd = pool.pushes) ∧
      ((∀ worker, .interrupted worker ∉ schedule) → pool.foundEmpty = 0) := by
  obtain ⟨pool, done, protocol⟩ := runOps_keeps (Protocol workers)
    (fun _ _ _ protocol enabled => protocol.exec enabled)
    (protocol_init maxRequests producers workers) enabled
  refine ⟨pool, done, protocol.covered, protocol.inOrder, protocol.handled, ?_, ?_⟩
  · intro atLeastOne settled
    rw [protocol.inOrder, protocol.settled atLeastOne settled, List.append_nil]
  · intro calm
    exact (protocol.exact calm).2

/-- Two producers and two workers: one wait is interrupted, and its worker takes the
request before it is posted, so the other one finds the queue empty. -/
def samplePoolSteps : List (PoolStep Nat) :=
  [.append 0 (some 7), .interrupted 1, .take 1, .post 0, .append 1 none, .post 1, .wait 0, .take 0,
    .process 1, .wait 1, .take 1]

theorem threadPool_protocol_samplePoolSteps :
    ∃ pool, runOps ThreadPool.exec (ThreadPool.init 1000 2 2) samplePoolSteps = .ok pool ∧
      pool.workqueue.length ≤ pool.queuestat + pool.woken + pool.unposted ∧
      pool.pushes = pool.pops.map Prod.snd ++ pool.workqueue ∧
      (∀ worker request, pool.workers[worker]? = some (.processing request) →
        (worker, some request) ∈ pool.pops) ∧
      (0 < 2 → pool.Settled → pool.pops.map Prod.snd = pool.pushes) ∧
      ((∀ worker, .interrupted worker ∉ samplePoolSteps) → pool.foundEmpty = 0) :=
  threadPool_protocol 1000 2 2 samplePoolSteps (by decide)

end HPLinuxServer.Pool
