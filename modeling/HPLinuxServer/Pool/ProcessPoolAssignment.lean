import HPLinuxServer.Memory.CString
import HPLinuxServer.Memory.Heap
import HPLinuxServer.Pool.ProcessPoolProperties
import HPLinuxServer.Scheduling.CyclicSearch

/-!
# Process pool: which child gets a connection

The branch of `run_parent` for the listening socket, on the arrays it indexes: an access
at any other index than one of theirs is a fault.
-/

set_option autoImplicit false

namespace HPLinuxServer.Pool

open Memory Scheduling

/-- `m_sub_process` and `m_used_process`, which the constructor allocates with
`m_process_number` entries each, and the `sub_process_count` of `run_parent`. -/
structure ProcessTable (processNumber : Nat) where
  /-- `m_sub_process[i].m_pid` -/
  pid : Vector Int processNumber
  usedProcess : Vector Int processNumber
  subProcessCount : Nat
  deriving DecidableEq, Repr

/-- How the branch ends. -/
inductive NewConnection where
  /-- `new_conn` is sent to the child, and its c2p pipe is registered -/
  | assigned (child : Nat)
  /-- `info` is sent to the client, and its connection is closed -/
  | rejected (connfd : Int) (info : Text)
  /-- `accept` returned no connection -/
  | acceptFailed
  deriving DecidableEq, Repr

def tooManyUsers : Text := ascii "too many users\n"

namespace ProcessTable

variable {processNumber : Nat}

def load (entries : Vector Int processNumber) (i : Nat) : Except Fault Int :=
  match entries[i]? with
  | some value => .ok value
  | none => .error .outOfBounds

def store (entries : Vector Int processNumber) (i : Nat) (value : Int) :
    Except Fault (Vector Int processNumber) :=
  if inside : i < processNumber then .ok (entries.set i value) else .error .outOfBounds

/-- `m_pid != -1 && m_used_process[i] != 1`: the flag of a dead child is not read. -/
def isFree (table : ProcessTable processNumber) (i : Nat) : Except Fault Bool := do
  if (← load table.pid i) = -1 then return false
  return decide ((← load table.usedProcess i) ≠ 1)

/-- The `do … while` loop, one `rounds` for each time its body is entered. -/
def scan (table : ProcessTable processNumber) : Nat → Nat → Except Fault Nat
  | 0, _ => .error .outOfFuel
  | rounds + 1, i => do
      if ← table.isFree i then return i
      let next := (i + 1) % processNumber
      if next = table.subProcessCount then return next
      table.scan rounds next

/-- `connfd` is what `accept` returns if it is called. -/
def turnAway (connfd : Int) : NewConnection :=
  if connfd < 0 then .acceptFailed else .rejected connfd tooManyUsers

/-- The branch of the listening socket. After the loop the child is tested again. -/
def handleListen (table : ProcessTable processNumber) (rounds : Nat) (connfd : Int) :
    Except Fault (ProcessTable processNumber × NewConnection) := do
  let i ← table.scan rounds table.subProcessCount
  if ← table.isFree i then
    let usedProcess ← store table.usedProcess i 1
    return ({ table with usedProcess, subProcessCount := (i + 1) % processNumber }, .assigned i)
  return (table, turnAway connfd)

/-- The child is alive and not busy. -/
def Free (table : ProcessTable processNumber) (i : Nat) : Prop :=
  ∃ inside : i < processNumber, table.pid[i] ≠ -1 ∧ table.usedProcess[i] ≠ 1

variable {table : ProcessTable processNumber} {i rounds : Nat}

theorem load_eq (entries : Vector Int processNumber) (inside : i < processNumber) :
    load entries i = .ok entries[i] := by
  unfold load
  rw [Vector.getElem?_eq_getElem inside]

theorem store_eq (entries : Vector Int processNumber) (inside : i < processNumber)
    (value : Int) : store entries i value = .ok (entries.set i value) := dif_pos inside

theorem isFree_of_free (free : table.Free i) : table.isFree i = .ok true := by
  obtain ⟨inside, alive, idle⟩ := free
  unfold isFree
  rw [load_eq _ inside, load_eq _ inside, ok_bind, if_neg alive, ok_bind, decide_eq_true idle]
  rfl

theorem isFree_of_not_free (taken : ¬ table.Free i) (inside : i < processNumber) :
    table.isFree i = .ok false := by
  unfold isFree
  rw [load_eq _ inside, load_eq _ inside, ok_bind, ok_bind]
  split
  · rfl
  · next alive =>
      have busy : ¬ table.usedProcess[i] ≠ 1 := fun idle => taken ⟨inside, alive, idle⟩
      rw [decide_eq_false busy]
      rfl

/-- Behind `steps` children that are not free, the loop stops at the first free one, or
back at the start if there is none. -/
theorem scan_spec (start : table.subProcessCount < processNumber) {steps : Nat}
    (passed : Passed table.Free processNumber table.subProcessCount steps)
    (within : steps < processNumber) (enough : processNumber ≤ steps + rounds) :
    ∃ found, table.scan rounds ((table.subProcessCount + steps) % processNumber) = .ok found ∧
      (FirstFrom table.Free processNumber table.subProcessCount found ∨
        found = table.subProcessCount ∧ ∀ i < processNumber, ¬ table.Free i) := by
  induction rounds generalizing steps with
  | zero => omega
  | succ rounds ih =>
      have inside := Nat.mod_lt (table.subProcessCount + steps) (Nat.zero_lt_of_lt start)
      unfold scan
      rcases Classical.em (table.Free ((table.subProcessCount + steps) % processNumber)) with
        free | taken
      · rw [isFree_of_free free]
        exact ⟨_, rfl, .inl ⟨steps, within, rfl, free, passed⟩⟩
      · rw [isFree_of_not_free taken inside, ok_bind, if_neg Bool.false_ne_true, next_position]
        have further := passed.succ taken
        have back := position_eq_start_iff start (Nat.succ_pos steps) within
        dsimp only
        split
        · next again =>
            have round : steps + 1 = processNumber := back.mp again
            rw [round] at further
            exact ⟨_, rfl, .inr ⟨again, further.none_good start⟩⟩
        · next onward =>
            have short : steps + 1 ≠ processNumber := fun round => onward (back.mpr round)
            exact ih further (by omega) (by omega)

/-- The child `i` is marked, and the next search starts behind it. -/
def assign (table : ProcessTable processNumber) (i : Nat) (inside : i < processNumber) :
    ProcessTable processNumber :=
  { table with
    usedProcess := table.usedProcess.set i 1
    subProcessCount := (i + 1) % processNumber }

theorem handleListen_spec (start : table.subProcessCount < processNumber)
    (enough : processNumber ≤ rounds) (connfd : Int) :
    (∃ child, FirstFrom table.Free processNumber table.subProcessCount child ∧
      ∃ inside, table.handleListen rounds connfd =
        .ok (table.assign child inside, .assigned child)) ∨
    (∀ i < processNumber, ¬ table.Free i) ∧
      table.handleListen rounds connfd = .ok (table, turnAway connfd) := by
  have entry := scan_spec start (passed_zero _ _ _) (Nat.zero_lt_of_lt start)
    (Nat.zero_add rounds ▸ enough)
  rw [Nat.add_zero, Nat.mod_eq_of_lt start] at entry
  obtain ⟨found, scanned, first | ⟨rfl, noneFree⟩⟩ := entry
  · refine .inl ⟨found, first, first.lt, ?_⟩
    unfold handleListen
    rw [scanned, ok_bind, isFree_of_free first.isGood, ok_bind, if_pos rfl,
      store_eq _ first.lt, ok_bind]
    rfl
  · refine .inr ⟨noneFree, ?_⟩
    unfold handleListen
    rw [scanned, ok_bind, isFree_of_not_free (noneFree _ start) start]
    rfl

/-! ## The branch of the whole pool -/

/-- The fields of the pool have the contents of the arrays. -/
structure Matches (table : ProcessTable processNumber) (pool : ProcessPool) : Prop where
  number : pool.processNumber = processNumber
  pid : ∀ i (inside : i < processNumber), pool.pid i = table.pid[i]
  usedProcess : ∀ i (inside : i < processNumber), pool.usedProcess i = table.usedProcess[i]
  count : pool.subProcessCount = table.subProcessCount

namespace Matches

variable {pool : ProcessPool}

theorem isFree (same : Matches table pool) (inside : i < processNumber) :
    table.isFree i = .ok (pool.isFree i) := by
  unfold ProcessPool.isFree
  rw [same.pid i inside, same.usedProcess i inside]
  rcases Classical.em (table.Free i) with free | taken
  · obtain ⟨_, alive, idle⟩ := free
    rw [isFree_of_free ⟨inside, alive, idle⟩, decide_eq_true alive, decide_eq_true idle]
    rfl
  · rw [isFree_of_not_free taken inside, ← Bool.decide_and]
    exact congrArg Except.ok (decide_eq_false fun free => taken ⟨inside, free⟩).symm

theorem scan (same : Matches table pool) {found : Nat} (inside : i < processNumber)
    (scanned : table.scan rounds i = .ok found) : pool.scan rounds i = found := by
  induction rounds generalizing i with
  | zero => exact nomatch scanned
  | succ rounds ih =>
      unfold ProcessTable.scan at scanned
      unfold ProcessPool.scan
      rw [same.isFree inside, ok_bind] at scanned
      split at scanned
      · next free =>
          rw [if_pos free]
          exact Except.ok.inj scanned
      · next taken =>
          rw [if_neg taken, same.number, same.count]
          dsimp only at scanned ⊢
          split at scanned
          · next again =>
              rw [if_pos again]
              exact Except.ok.inj scanned
          · next onward =>
              rw [if_neg onward]
              exact ih (Nat.mod_lt _ (Nat.zero_lt_of_lt inside)) scanned

/-- The branch of the pool does what the one on the arrays does. -/
theorem handleListen (same : Matches table pool) (start : table.subProcessCount < processNumber)
    (connfd : Int) :
    ∃ after outcome, table.handleListen processNumber connfd = .ok (after, outcome) ∧
      Matches after (pool.handleListen (decide (0 ≤ connfd))) := by
  have entry := scan_spec start (passed_zero _ _ _) (Nat.zero_lt_of_lt start)
    (Nat.le_of_eq (Nat.zero_add processNumber).symm)
  rw [Nat.add_zero, Nat.mod_eq_of_lt start] at entry
  obtain ⟨found, scanned, stopped⟩ := entry
  have inside : found < processNumber := by
    rcases stopped with first | ⟨rfl, -⟩
    · exact first.lt
    · exact start
  have chosen : pool.chooseChild = found := by
    unfold ProcessPool.chooseChild
    rw [same.number, same.count]
    exact same.scan start scanned
  unfold ProcessTable.handleListen ProcessPool.handleListen
  rw [scanned, ok_bind, same.isFree inside, ok_bind, chosen]
  split
  · rw [store_eq _ inside, ok_bind]
    refine ⟨_, _, rfl, same.number, same.pid, ?_, ?_⟩
    · intro i within
      unfold ProcessPool.assign
      dsimp only
      rw [Vector.getElem_set, Function.update_apply, same.usedProcess i within]
      exact if_congr eq_comm rfl rfl
    · unfold ProcessPool.assign
      dsimp only
      rw [same.number]
  · refine ⟨_, _, rfl, ?_⟩
    unfold ProcessPool.reject
    split
    · exact ⟨same.number, same.pid, same.usedProcess, same.count⟩
    · exact same

end Matches

end ProcessTable

open ProcessTable in
/-- The loop ends within one round, at the first free child from `sub_process_count` on;
the connection is turned away exactly if there is none. -/
theorem processPool_roundRobin {processNumber : Nat} (table : ProcessTable processNumber)
    (start : table.subProcessCount < processNumber) (connfd : Int) :
    ∃ after outcome, table.handleListen processNumber connfd = .ok (after, outcome) ∧
      ((∃ i, table.Free i) → ∃ child,
        FirstFrom table.Free processNumber table.subProcessCount child ∧
          outcome = .assigned child ∧ after.pid = table.pid ∧
          (∀ i (inside : i < processNumber),
            after.usedProcess[i] = if i = child then 1 else table.usedProcess[i]) ∧
          after.subProcessCount = (child + 1) % processNumber) ∧
      ((∀ i, ¬ table.Free i) → after = table) ∧
      (0 ≤ connfd → (outcome = .rejected connfd tooManyUsers ↔ ∀ i, ¬ table.Free i)) := by
  rcases handleListen_spec start (Nat.le_refl _) connfd with
    ⟨child, first, inside, handled⟩ | ⟨noneFree, handled⟩
  · refine ⟨_, _, handled, fun _ => ⟨child, first, rfl, rfl, fun i within => ?_, rfl⟩,
      fun noneFree => absurd first.isGood (noneFree child),
      fun _ => ⟨nofun, fun noneFree => absurd first.isGood (noneFree child)⟩⟩
    unfold assign
    rw [Vector.getElem_set]
    exact if_congr eq_comm rfl rfl
  · have noneFree : ∀ i, ¬ table.Free i := fun i free => noneFree i free.1 free
    refine ⟨_, _, handled, fun ⟨i, free⟩ => absurd free (noneFree i), fun _ => rfl,
      fun connected => ⟨fun _ => noneFree, fun _ => ?_⟩⟩
    unfold turnAway
    rw [if_neg (Int.not_lt.mpr connected)]

/-- Child 0 is busy and child 1 is dead. -/
def sampleTable : ProcessTable 3 where
  pid := #v[7, -1, 9]
  usedProcess := #v[1, 0, 0]
  subProcessCount := 1

theorem processPool_roundRobin_sampleTable :
    ∃ after outcome, sampleTable.handleListen 3 5 = .ok (after, outcome) ∧
      ((∃ i, sampleTable.Free i) → ∃ child,
        FirstFrom sampleTable.Free 3 sampleTable.subProcessCount child ∧
          outcome = .assigned child ∧ after.pid = sampleTable.pid ∧
          (∀ i (inside : i < 3),
            after.usedProcess[i] = if i = child then 1 else sampleTable.usedProcess[i]) ∧
          after.subProcessCount = (child + 1) % 3) ∧
      ((∀ i, ¬ sampleTable.Free i) → after = sampleTable) ∧
      (0 ≤ (5 : Int) →
        (outcome = .rejected 5 tooManyUsers ↔ ∀ i, ¬ sampleTable.Free i)) :=
  processPool_roundRobin sampleTable (by decide) 5

end HPLinuxServer.Pool
