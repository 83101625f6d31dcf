import HPLinuxServer.Pool.ProcessPoolProperties

/-!
# Process pool: which child a release frees

An event on a child's c2p pipe, at any place of a batch. The loop that looks for the child
compares the pipe of child `i` with `events[i]`, which may be another event of the batch
or one that an earlier batch has left in the array.
-/

set_option autoImplicit false

namespace HPLinuxServer.Pool

open Refinement

namespace ProcessPool

variable {pool : ProcessPool} {child : Nat}

/-- The first child whose pipe stands at the child's own place of the array. -/
def FirstInPlace (processNumber : Nat) (events : Nat → ParentFd) (i : Nat) : Prop :=
  i < processNumber ∧ events i = .c2p i ∧ ∀ earlier < i, events earlier ≠ .c2p earlier

/-- Either the child itself is the first one in its place, or nothing is to be done: its
flag is down already, and so is that of the first child in its place. -/
def Attributed (processNumber : Nat) (events : Nat → ParentFd) (usedProcess : Nat → Int)
    (child : Nat) : Prop :=
  FirstInPlace processNumber events child ∨
    usedProcess child = 0 ∧ ∀ i, FirstInPlace processNumber events i → usedProcess i = 0

theorem releasedChild_eq_some_iff {i : Nat} :
    pool.releasedChild = some i ↔ FirstInPlace pool.processNumber pool.events i := by
  unfold releasedChild FirstInPlace
  rw [List.find?_range_eq_some, List.mem_range, decide_eq_true_iff]
  simp only [Bool.not_eq_true', decide_eq_false_iff_not]
  exact and_left_comm

theorem handleRelease_iff (pool : ProcessPool) (child : Nat) :
    (pool.handleRelease child).usedProcess = Function.update pool.usedProcess child 0 ↔
      Attributed pool.processNumber pool.events pool.usedProcess child := by
  have freed : (pool.handleRelease child).usedProcess =
      fun i => if pool.releasedChild = some i then 0 else pool.usedProcess i :=
    funext (handleRelease_usedProcess child)
  rw [freed]
  constructor
  · intro same
    have ours := congrFun same child
    rw [Function.update_self] at ours
    rcases Decidable.em (pool.releasedChild = some child) with own | other
    · exact .inl (releasedChild_eq_some_iff.mp own)
    · rw [if_neg other] at ours
      refine .inr ⟨ours, fun i first => ?_⟩
      have released := releasedChild_eq_some_iff.mpr first
      have apart : i ≠ child := fun same => other (same ▸ released)
      have down := congrFun same i
      rw [if_pos released, Function.update_of_ne apart] at down
      exact down.symm
  · intro attributed
    funext i
    rw [Function.update_apply]
    rcases attributed with own | ⟨down, others⟩
    · rw [releasedChild_eq_some_iff.mpr own]
      exact if_congr (Option.some_inj.trans eq_comm) rfl rfl
    · split
      · next released =>
          have first := others i (releasedChild_eq_some_iff.mp released)
          split
          · rfl
          · exact first.symm
      · split
        · next same => exact same ▸ down
        · rfl

/-! ## The batch -/

theorem handle_keeps (pool : ProcessPool) (accepted : Bool) :
    (pool.handle accepted).events = pool.events ∧
      (pool.handle accepted).processNumber = pool.processNumber ∧
      (pool.handle accepted).pending = pool.pending.tail := by
  cases pending : pool.pending with
  | nil =>
      unfold handle
      rw [pending]
      exact ⟨rfl, rfl, pending⟩
  | cons fd rest =>
      rw [handle_cons pending]
      cases fd with
      | listenfd =>
          unfold dispatch handleListen
          dsimp only
          split
          · exact ⟨rfl, rfl, rfl⟩
          · unfold reject
            split <;> exact ⟨rfl, rfl, rfl⟩
      | sigPipe => exact ⟨rfl, rfl, rfl⟩
      | c2p child => exact ⟨rfl, rfl, rfl⟩
      | unset => exact ⟨rfl, rfl, rfl⟩

theorem foldl_handle_keeps (pool : ProcessPool) (earlier : List Bool) :
    (earlier.foldl handle pool).events = pool.events ∧
      (earlier.foldl handle pool).processNumber = pool.processNumber ∧
      (earlier.foldl handle pool).pending = pool.pending.drop earlier.length := by
  induction earlier generalizing pool with
  | nil => exact ⟨rfl, rfl, rfl⟩
  | cons accepted earlier ih =>
      obtain ⟨events, number, pending⟩ := pool.handle_keeps accepted
      obtain ⟨events', number', pending'⟩ := ih (pool.handle accepted)
      refine ⟨events'.trans events, number'.trans number, pending'.trans ?_⟩
      rw [pending, ← List.drop_one, List.drop_drop, List.length_cons, Nat.add_comm]

theorem handle_release (accepted : Bool) (event : pool.pending.head? = some (.c2p child)) :
    (pool.handle accepted).usedProcess = Function.update pool.usedProcess child 0 ↔
      Attributed pool.processNumber pool.events pool.usedProcess child := by
  obtain ⟨rest, pending⟩ := List.head?_eq_some_iff.mp event
  rw [handle_cons pending]
  exact handleRelease_iff { pool with pending := rest } child

end ProcessPool

open ProcessPool in
/-- An event on the pipe of `child` at any place of any batch takes down the flag of
`child` and no other one exactly if the array has it at its own place, behind no other
child in its place, or nothing is to be taken down. -/
theorem processPool_release_iff (pool : ProcessPool) (batch : List ParentFd)
    (earlier : List Bool) (accepted : Bool) {child : Nat}
    (event : batch[earlier.length]? = some (.c2p child)) :
    ((earlier.foldl handle (pool.epollWait batch)).handle accepted).usedProcess =
        Function.update (earlier.foldl handle (pool.epollWait batch)).usedProcess child 0 ↔
      Attributed pool.processNumber (fun i => batch[i]?.getD (pool.events i))
        (earlier.foldl handle (pool.epollWait batch)).usedProcess child := by
  obtain ⟨events, number, pending⟩ := foldl_handle_keeps (pool.epollWait batch) earlier
  have next : (earlier.foldl handle (pool.epollWait batch)).pending.head? =
      some (.c2p child) := by
    rw [pending, List.head?_drop]
    exact event
  rw [handle_release accepted next, events, number]
  rfl

/-- Both children are busy, and both releases are in one batch, each at the place of the
other one. -/
def crossedReleases : List ParentFd := [.c2p 1, .c2p 0]

/-- Two children that have a client each, and an array that was never written to. -/
def busyPool : ProcessPool :=
  ProcessPool.init 2 278 (fun _ => 7) (fun _ => 1) fun _ => .unset

theorem processPool_release_iff_ownPlaces :
    ((([true].foldl ProcessPool.handle (busyPool.epollWait [.c2p 0, .c2p 1])).handle
        true).usedProcess =
      Function.update
        ([true].foldl ProcessPool.handle (busyPool.epollWait [.c2p 0, .c2p 1])).usedProcess
        1 0 ↔
      ProcessPool.Attributed 2 (fun i => [ParentFd.c2p 0, .c2p 1][i]?.getD .unset)
        ([true].foldl ProcessPool.handle (busyPool.epollWait [.c2p 0, .c2p 1])).usedProcess
        1) :=
  processPool_release_iff busyPool [.c2p 0, .c2p 1] [true] true rfl

theorem processPool_release_misplaced :
    ¬∀ (pool : ProcessPool) (batch : List ParentFd) (earlier : List Bool) (accepted : Bool)
        (child : Nat), child < pool.processNumber →
      batch[earlier.length]? = some (.c2p child) →
      ((earlier.foldl ProcessPool.handle (pool.epollWait batch)).handle accepted).usedProcess =
        Function.update
          (earlier.foldl ProcessPool.handle (pool.epollWait batch)).usedProcess child 0 := by
  intro claimed
  have freed := claimed busyPool crossedReleases [] true 1 (by decide) rfl
  exact absurd (congrFun freed 1) (by decide)

end HPLinuxServer.Pool
