import HPLinuxServer.Execution.SubprocessChatRoom
import HPLinuxServer.Refinement.Runs
import Mathlib.Data.List.Basic
import Mathlib.Order.CompletePartialOrder
import Mathlib.Order.Interval.Set.Disjoint

/-!
# Chat room with a process for each client: the table and the segments

The process that goes on as the server is the one in which `fork` has returned 0, which
is the pid it enters in its table. No `waitpid` finds a user under that pid, so the table
never renumbers and each child has an index of its own.
-/

set_option autoImplicit false

namespace HPLinuxServer.Execution

open Kernel Refinement

namespace ChatRoom

/-- Each place of the table belongs to the process that serves the client, which is found
under its pid, and no other process is found. -/
structure Table (processes : List Process) (room : ChatRoom) : Prop where
  nonneg : 0 ≤ room.userCount
  atMost : room.userCount ≤ userLimit
  served : ∀ i, 0 ≤ i → i < room.userCount → ∃ process ∈ processes,
    process.pid = (room.users i).pid ∧ process.role.client? = some (room.users i).address
  distinct : ∀ i j, 0 ≤ i → i < room.userCount → 0 ≤ j → j < room.userCount →
    (room.users i).address = (room.users j).address → i = j
  index : ∀ i, 0 ≤ i → i < room.userCount → room.subProcess (room.users i).pid = i
  others : ∀ pid, (∀ i, 0 ≤ i → i < room.userCount → (room.users i).pid ≠ pid) →
    room.subProcess pid = -1

/-- The table is right in whichever process serves. -/
def UserTable (processes : List Process) : Prop :=
  ∀ process ∈ processes, ∀ room, process.role = .serving room → room.Table processes

/-- A table without users, next to memory that may have been written to. -/
structure Vacant (room : ChatRoom) : Prop where
  count : room.userCount = 0
  index : room.subProcess = fun _ => -1

namespace Vacant

variable {room : ChatRoom}

theorem recordClient (vacant : Vacant room) (address : Nat) (connfd : Fd) :
    Vacant (room.recordClient address connfd) :=
  ⟨vacant.count, vacant.index⟩

theorem table (vacant : Vacant room) (processes : List Process) : room.Table processes := by
  have empty : ∀ i, 0 ≤ i → ¬i < room.userCount := by
    intro i nonneg
    rw [vacant.count]
    exact Int.not_lt.mpr nonneg
  exact {
    nonneg := vacant.count.ge
    atMost := vacant.count.trans_le (by decide)
    served := fun i nonneg inside => absurd inside (empty i nonneg)
    distinct := fun i _ nonneg inside => absurd inside (empty i nonneg)
    index := fun i nonneg inside => absurd inside (empty i nonneg)
    others := fun pid _ => congrFun vacant.index pid }

/-- The process that is created serves on, and enters 0 as the pid of the other one. -/
theorem accept_some (vacant : Vacant room) {server : Process} (serverPos : 0 < server.pid)
    {pid : Int} (pidPos : 0 < pid) (address : Nat) (connfd : Fd) :
    ¬UserTable (room.accept server address connfd (some pid)) := by
  intro table
  have admitted := vacant.recordClient address connfd
  have accepted : room.accept server address connfd (some pid) =
      [{ server with role := .runChild 0 address },
        { pid, parent := server.pid,
          role := .serving ((room.recordClient address connfd).enroll 0) }] := by
    have count := vacant.count
    have notNegative : ¬pid < 0 := by omega
    have nonzero : pid ≠ 0 := by omega
    simp [accept, afterFork, ChatRoom.recordClient, count, userLimit, notNegative, nonzero]
  rw [accepted] at table
  have law := table _ (List.mem_cons_of_mem _ List.mem_cons_self) _ rfl
  obtain ⟨process, member, samePid, -⟩ :=
    law.served 0 (Int.le_refl 0) (by simp [enroll, admitted.count])
  have zero : process.pid = 0 := by
    simpa [enroll, admitted.count] using samePid
  simp only [List.mem_cons, List.not_mem_nil, or_false] at member
  rcases member with rfl | rfl
  · simp only at zero
    omega
  · simp only at zero
    omega

end Vacant

/-- The program while only one process has ever served, and no client. -/
def Alone (pid parent : Int) (processes : List Process) : Prop :=
  ∃ room, Vacant room ∧ processes = [{ pid, parent, role := .serving room }]

namespace Alone

variable {pid parent : Int} {processes : List Process} {step : ChatStep}

theorem userTable (alone : Alone pid parent processes) : UserTable processes := by
  obtain ⟨room, vacant, rfl⟩ := alone
  intro process member served role
  obtain rfl : process = _ := List.mem_singleton.mp member
  obtain rfl : room = served := Role.serving.inj role
  exact vacant.table _

/-- Only the accept branch can be executed, and if `fork` fails there is no new user. -/
theorem exec (alone : Alone pid parent processes) (enabled : step.Enabled processes)
    (failed : step.forked? = none) : Alone pid parent (step.exec processes) := by
  obtain ⟨room, vacant, rfl⟩ := alone
  cases step with
  | accept server address connfd forked =>
      obtain rfl : forked = none := failed
      obtain ⟨⟨process, member, samePid, -⟩, -, -⟩ := enabled
      obtain rfl : process = _ := List.mem_singleton.mp member
      refine ⟨room.recordClient address connfd, vacant.recordClient address connfd, ?_⟩
      obtain rfl : pid = server := samePid
      have room : ¬userLimit ≤ room.userCount := by simp [vacant.count, userLimit]
      simp [ChatStep.exec, accept, afterFork, room]
  | exit other =>
      obtain ⟨process, member, -, child⟩ := enabled
      obtain rfl : process = _ := List.mem_singleton.mp member
      exact nomatch child
  | reap server other =>
      obtain ⟨-, process, member, -, -, ended⟩ := enabled
      obtain rfl : process = _ := List.mem_singleton.mp member
      exact nomatch ended

theorem exec_forked (alone : Alone pid parent processes) (pidPos : 0 < pid)
    (enabled : step.Enabled processes) {forked : Int} (created : step.forked? = some forked) :
    ¬UserTable (step.exec processes) := by
  obtain ⟨room, vacant, rfl⟩ := alone
  cases step with
  | accept server address connfd result =>
      obtain rfl : result = some forked := created
      obtain ⟨⟨process, member, samePid, -⟩, -, fresh⟩ := enabled
      obtain rfl : process = _ := List.mem_singleton.mp member
      obtain rfl : pid = server := samePid
      simpa [ChatStep.exec] using vacant.accept_some pidPos (fresh forked rfl).1 address connfd
  | exit other => exact nomatch created
  | reap server other => exact nomatch created

end Alone

end ChatRoom

open ChatRoom in
/-- The table is right throughout a run exactly if no `fork` of the run succeeds. -/
theorem subprocessChatRoom_userTable_iff {pid : Int} (pidPos : 0 < pid) (parent : Int)
    (unset : Int → ChatRoom.ClientData) (steps : List ChatStep)
    (run : AllowedRun ChatStep.Enabled ChatStep.exec (start pid parent unset) steps) :
    Throughout UserTable ChatStep.exec (start pid parent unset) steps ↔
      ∀ step ∈ steps, step.forked? = none := by
  have fromAlone : ∀ processes, Alone pid parent processes →
      AllowedRun ChatStep.Enabled ChatStep.exec processes steps →
      (Throughout UserTable ChatStep.exec processes steps ↔
        ∀ step ∈ steps, step.forked? = none) := by
    clear run
    induction steps with
    | nil => exact fun processes alone _ => iff_of_true alone.userTable (fun _ => nofun)
    | cons step steps ih =>
        rintro processes alone ⟨enabled, rest⟩
        rw [List.forall_mem_cons]
        cases forked : step.forked? with
        | none =>
            rw [← ih _ (alone.exec enabled forked) rest]
            exact and_congr (iff_of_true alone.userTable rfl) Iff.rfl
        | some created =>
            refine iff_of_false (fun law => ?_) (fun law => nomatch law.1)
            exact alone.exec_forked pidPos enabled forked (throughout_iff.mp law.2 [] List.nil_prefix)
  exact fromAlone _ ⟨_, ⟨rfl, rfl⟩, rfl⟩ run

/-- Two connections come, and `fork` fails both times. -/
def failedForks : List ChatStep := [.accept 100 1 5 none, .accept 100 2 5 none]

theorem subprocessChatRoom_userTable_iff_failedForks :
    Throughout ChatRoom.UserTable ChatStep.exec (ChatRoom.start 100 1 fun _ => ⟨0, 0, 0⟩)
        failedForks ↔
      ∀ step ∈ failedForks, step.forked? = none :=
  subprocessChatRoom_userTable_iff (by decide) 1 _ failedForks
    ⟨by simp [ChatStep.Enabled, ChatRoom.start, Role.serves, Role.client?],
      by simp [ChatStep.Enabled, ChatStep.exec, ChatRoom.start, ChatRoom.accept,
        ChatRoom.afterFork, ChatRoom.userLimit, ChatRoom.init, ChatRoom.recordClient, Role.serves,
        Role.client?], trivial⟩

/-- The first client that is served breaks the law. -/
theorem subprocessChatRoom_wrongPid :
    ¬∀ (pid parent : Int) (unset : Int → ChatRoom.ClientData) (steps : List ChatStep), 0 < pid →
      AllowedRun ChatStep.Enabled ChatStep.exec (ChatRoom.start pid parent unset) steps →
      Throughout ChatRoom.UserTable ChatStep.exec (ChatRoom.start pid parent unset) steps := by
  intro claimed
  have table := claimed 100 1 (fun _ => ⟨0, 0, 0⟩) [.accept 100 1 5 (some 101)] (by decide)
    ⟨by decide, trivial⟩
  have alone : ChatRoom.Alone 100 1 (ChatRoom.start 100 1 fun _ => ⟨0, 0, 0⟩) :=
    ⟨_, ⟨rfl, rfl⟩, rfl⟩
  have enabled : (ChatStep.accept 100 1 5 (some 101)).Enabled
      (ChatRoom.start 100 1 fun _ => ⟨0, 0, 0⟩) := by decide
  exact alone.exec_forked (by decide) enabled rfl table.2

/-! ## Segments -/

theorem RunChild.disjoint_segment_iff {first second : RunChild} :
    Disjoint first.segment second.segment ↔ first.idx ≠ second.idx := by
  unfold RunChild.segment ChatRoom.bufferSize
  rw [Set.Ico_disjoint_Ico]
  omega

theorem ChatStep.exec_accept_idle {processes : List Process} {server : Int}
    (idle : ∀ process ∈ processes, process.pid = server → process.role.serves = false)
    (address : Nat) (connfd : Fd) (forked : Option Int) :
    (accept server address connfd forked).exec processes = processes := by
  refine Eq.trans (List.flatMap_congr fun process member => ?_) (List.flatMap_singleton' processes)
  cases role : process.role with
  | serving room =>
      have elsewhere : process.pid ≠ server := by
        intro same
        simpa [role, Role.serves] using idle process member same
      simp [elsewhere]
  | runChild idx client => rfl
  | ended => rfl

theorem ChatStep.exec_accept {before after : List Process} {process : Process} {room : ChatRoom}
    (role : process.role = .serving room)
    (others : ∀ other ∈ before ++ after, other.role.serves = false) (address : Nat) (connfd : Fd)
    (forked : Option Int) :
    (accept process.pid address connfd forked).exec (before ++ process :: after) =
      before ++ room.accept process address connfd forked ++ after := by
  have onBefore : (accept process.pid address connfd forked).exec before = before :=
    exec_accept_idle (fun other member _ => others other (List.mem_append_left _ member)) _ _ _
  have onAfter : (accept process.pid address connfd forked).exec after = after :=
    exec_accept_idle (fun other member _ => others other (List.mem_append_right _ member)) _ _ _
  simp only [exec] at onBefore onAfter ⊢
  rw [List.flatMap_append, List.flatMap_cons, onBefore, onAfter, List.append_assoc]
  simp [role]

/-- No two processes are in `run_child` with the same index, or write to the same bytes. -/
def ChatRoom.Exclusive (processes : List Process) : Prop :=
  (processes.filterMap Process.runChild?).Pairwise fun first second =>
    first.idx ≠ second.idx ∧ Disjoint first.segment second.segment

/-- The pids that `fork` and `waitpid` return for a process are positive. -/
def ChatStep.Positive : ChatStep → Prop
  | accept _ _ _ forked => ∀ pid ∈ forked, 0 < pid
  | exit _ => True
  | reap _ pid => 0 < pid

instance : ∀ step : ChatStep, Decidable step.Positive
  | .accept _ _ _ forked => inferInstanceAs (Decidable (∀ pid ∈ forked, 0 < pid))
  | .exit _ => inferInstanceAs (Decidable True)
  | .reap _ pid => inferInstanceAs (Decidable (0 < pid))

theorem Role.serves_iff {role : Role} :
    role.serves = true ↔ ∃ room, role = .serving room := by
  cases role <;> simp [Role.serves]

namespace ChatRoom

/-- The processes in `run_child` have different indices, below the `user_count` of the one that
serves, whose index of processes has none of their pids. -/
structure Ranked (processes : List Process) : Prop where
  one : processes.Pairwise fun first second =>
    first.role.serves = true → second.role.serves = false
  distinct : (processes.filterMap Process.runChild?).Pairwise fun first second =>
    first.idx ≠ second.idx
  below : ∀ process ∈ processes, ∀ room, process.role = .serving room →
    ∀ child ∈ processes.filterMap Process.runChild?, child.idx < room.userCount
  index : ∀ process ∈ processes, ∀ room, process.role = .serving room →
    ∀ pid, 0 < pid → room.subProcess pid = -1

namespace Ranked

variable {processes before after : List Process} {process : Process} {room : ChatRoom}

theorem start (pid parent : Int) (unset : Int → ClientData) :
    Ranked (ChatRoom.start pid parent unset) where
  one := List.pairwise_singleton _ _
  distinct := List.Pairwise.nil
  below := fun _ _ _ _ child created => absurd created List.not_mem_nil
  index := by
    intro process member room role pid _
    obtain rfl : process = _ := List.mem_singleton.mp member
    obtain rfl : ChatRoom.init unset = room := Role.serving.inj role
    rfl

theorem exclusive (ranked : Ranked processes) : Exclusive processes :=
  ranked.distinct.imp fun differs => ⟨differs, RunChild.disjoint_segment_iff.mpr differs⟩

/-- Beside the process that serves, nobody does. -/
theorem others (ranked : Ranked (before ++ process :: after)) (role : process.role = .serving room) :
    ∀ other ∈ before ++ after, other.role.serves = false := by
  have serves : process.role.serves = true := by rw [role]; rfl
  obtain ⟨-, later, earlier⟩ := List.pairwise_append.mp ranked.one
  intro other member
  rcases List.mem_append.mp member with member | member
  · by_contra otherServes
    have differ := earlier other member process List.mem_cons_self
      (Bool.eq_true_of_not_eq_false otherServes)
    exact absurd serves (by simp [differ])
  · exact List.rel_of_pairwise_cons later member serves

/-- A process is replaced by others of which at most one serves, with a `user_count` above the
indices there were and those that are new. -/
theorem replace (ranked : Ranked (before ++ process :: after))
    (role : process.role = .serving room) {created : List Process}
    (one : created.Pairwise fun first second =>
      first.role.serves = true → second.role.serves = false)
    (distinct : (created.filterMap Process.runChild?).Pairwise fun first second =>
      first.idx ≠ second.idx)
    (least : ∀ child ∈ created.filterMap Process.runChild?, room.userCount ≤ child.idx)
    (serves : ∀ process ∈ created, ∀ next, process.role = .serving next →
      room.userCount ≤ next.userCount ∧
        (∀ child ∈ created.filterMap Process.runChild?, child.idx < next.userCount) ∧
        ∀ pid, 0 < pid → next.subProcess pid = room.subProcess pid) :
    Ranked (before ++ created ++ after) := by
  have noOther := ranked.others role
  have served : process ∈ before ++ process :: after := by simp
  have noChild : process.runChild? = none := by simp [Process.runChild?, role]
  have below := ranked.below process served room role
  have old := ranked.distinct
  simp only [List.filterMap_append, List.filterMap_cons_none noChild] at below old
  have isOther : ∀ other next, other.role = .serving next → other ∈ before ++ created ++ after →
      other ∈ created := by
    intro other next serving member
    by_contra outside
    have member : other ∈ before ++ after := by
      simp only [List.mem_append] at member ⊢
      tauto
    simpa [serving, Role.serves] using noOther other member
  refine ⟨?one, ?distinct, ?below, ?index⟩
  case one =>
    have all : (before ++ after).Pairwise fun first second : Process =>
        first.role.serves = true → second.role.serves = false :=
      List.pairwise_of_forall_mem_list fun _ _ other member _ => noOther other member
    simp only [List.pairwise_append, List.mem_append] at all noOther ⊢
    refine ⟨⟨all.1, one, ?_⟩, all.2.1, ?_⟩
    · intro first earlier _ _ serving
      exact absurd serving (by simp [noOther first (.inl earlier)])
    · exact fun _ _ second later _ => noOther second (.inr later)
  case distinct =>
    simp only [List.filterMap_append, List.pairwise_append, List.mem_append] at below old ⊢
    refine ⟨⟨old.1, distinct, ?_⟩, old.2.1, ?_⟩
    · intro first earlier second new
      exact ((below first (.inl earlier)).trans_le (least second new)).ne
    · rintro first (earlier | new) second later
      · exact old.2.2 first earlier second later
      · exact ((below second (.inr later)).trans_le (least first new)).ne'
  case below =>
    intro other member next serving child among
    obtain ⟨grows, ownBelow, -⟩ := serves other (isOther other next serving member) next serving
    simp only [List.filterMap_append, List.mem_append] at among below
    rcases among with (earlier | new) | later
    · exact (below child (.inl earlier)).trans_le grows
    · exact ownBelow child new
    · exact (below child (.inr later)).trans_le grows
  case index =>
    intro other member next serving pid positive
    obtain ⟨-, -, same⟩ := serves other (isOther other next serving member) next serving
    rw [same pid positive]
    exact ranked.index process served room role pid positive

/-- `fork` leaves `user_count` as the index of the one process, and one more in the other. -/
theorem accept (ranked : Ranked (before ++ process :: after))
    (role : process.role = .serving room) (address : Nat) (connfd : Fd) {forked : Option Int}
    (positive : ∀ pid ∈ forked, 0 < pid) :
    Ranked (before ++ room.accept process address connfd forked ++ after) := by
  by_cases full : userLimit ≤ room.userCount
  · simpa [ChatRoom.accept, full] using ranked
  · cases forked with
    | none =>
        have kept : room.accept process address connfd none =
            [{ process with role := .serving (room.recordClient address connfd) }] := by
          simp [ChatRoom.accept, full, afterFork]
        rw [kept]
        refine ranked.replace role (List.pairwise_singleton _ _) List.Pairwise.nil (List.forall_mem_nil _) ?_
        intro other member next serving
        obtain rfl : other = _ := List.mem_singleton.mp member
        obtain rfl : room.recordClient address connfd = next := Role.serving.inj serving
        exact ⟨Int.le_refl _, List.forall_mem_nil _, fun _ _ => rfl⟩
    | some pid =>
        have created : room.accept process address connfd (some pid) =
            [{ process with role := .runChild room.userCount address },
              { pid, parent := process.pid,
                role := .serving ((room.recordClient address connfd).enroll 0) }] := by
          have pidPos := positive pid rfl
          have notNegative : ¬pid < 0 := by omega
          have nonzero : pid ≠ 0 := by omega
          simp [ChatRoom.accept, full, afterFork, recordClient, notNegative, nonzero]
        rw [created]
        refine ranked.replace role (by simp [Role.serves]) (List.pairwise_singleton _ _)
          (List.forall_mem_singleton.mpr (Int.le_refl _)) ?_
        intro other member next serving
        simp only [List.mem_cons, List.not_mem_nil, or_false] at member
        rcases member with rfl | rfl
        · cases serving
        · obtain rfl : (room.recordClient address connfd).enroll 0 = next := Role.serving.inj serving
          have more : room.userCount < room.userCount + 1 := Int.lt_succ room.userCount
          exact ⟨more.le, List.forall_mem_singleton.mpr more,
            fun other otherPos => Function.update_of_ne otherPos.ne' _ _⟩

/-- A child that is reaped is not in the index of the process that reaps it. -/
theorem reapChild (index : ∀ pid, 0 < pid → room.subProcess pid = -1) {pid : Int}
    (positive : 0 < pid) : room.reapChild pid = room := by
  have unknown := index pid positive
  have same : Function.update room.subProcess pid (-1) = room.subProcess := by
    rw [← unknown]
    exact Function.update_eq_self pid room.subProcess
  simp [ChatRoom.reapChild, unknown, same]

/-- Processes that end or go on as they were take no index. -/
theorem narrow (ranked : Ranked processes) {change : Process → Option Process}
    (child : ∀ process next, change process = some next →
      next.runChild? = none ∨ next.runChild? = process.runChild?)
    (serving : ∀ process ∈ processes, ∀ next room, change process = some next →
      next.role = .serving room → ∃ old, process.role = .serving old ∧ room.userCount = old.userCount ∧
        room.subProcess = old.subProcess) :
    Ranked (processes.filterMap change) := by
  have among : ∀ other child, other ∈ processes.filterMap change →
      other.runChild? = some child → child ∈ processes.filterMap Process.runChild? := by
    intro other created member running
    obtain ⟨process, earlier, became⟩ := List.mem_filterMap.mp member
    rcases child process other became with gone | same
    · rw [gone] at running
      cases running
    · exact List.mem_filterMap.mpr ⟨process, earlier, same.symm.trans running⟩
  refine ⟨?one, ?distinct, ?below, ?index⟩
  case one =>
    refine List.pairwise_filterMap.mpr (ranked.one.imp_of_mem ?_)
    intro first second firstMember secondMember alone next becameNext other becameOther serves
    obtain ⟨room, role⟩ := Role.serves_iff.mp serves
    obtain ⟨old, oldRole, -⟩ := serving first firstMember next room becameNext role
    by_contra otherServes
    obtain ⟨otherRoom, otherRole⟩ := Role.serves_iff.mp (Bool.eq_true_of_not_eq_false otherServes)
    obtain ⟨otherOld, otherOldRole, -⟩ :=
      serving second secondMember other otherRoom becameOther otherRole
    have differ := alone (Role.serves_iff.mpr ⟨old, oldRole⟩)
    simp [otherOldRole, Role.serves] at differ
  case distinct =>
    refine List.pairwise_filterMap.mpr (List.pairwise_filterMap.mpr ?_)
    refine (List.pairwise_filterMap.mp ranked.distinct).imp ?_
    intro first second differs next becameNext other becameOther firstChild running secondChild
      otherRunning
    rcases child first next becameNext with gone | same
    · exact nomatch gone.symm.trans running
    · rcases child second other becameOther with otherGone | otherSame
      · exact nomatch otherGone.symm.trans otherRunning
      · exact differs firstChild (same.symm.trans running) secondChild
          (otherSame.symm.trans otherRunning)
  case below =>
    intro other member room role created running
    obtain ⟨process, earlier, became⟩ := List.mem_filterMap.mp member
    obtain ⟨old, oldRole, count, -⟩ := serving process earlier other room became role
    obtain ⟨runner, runs, isChild⟩ := List.mem_filterMap.mp running
    rw [count]
    exact ranked.below process earlier old oldRole created (among runner created runs isChild)
  case index =>
    intro other member room role pid positive
    obtain ⟨process, earlier, became⟩ := List.mem_filterMap.mp member
    obtain ⟨old, oldRole, -, same⟩ := serving process earlier other room became role
    rw [same]
    exact ranked.index process earlier old oldRole pid positive

/-- A process that is neither created nor reaped ends, or serves on with the same index. -/
theorem map (ranked : Ranked processes) {change : Process → Process}
    (child : ∀ process, (change process).runChild? = none ∨
      (change process).runChild? = process.runChild?)
    (serving : ∀ process ∈ processes, ∀ room, (change process).role = .serving room →
      process.role = .serving room) :
    Ranked (processes.map change) := by
  rw [← List.filterMap_eq_map]
  refine ranked.narrow ?_ ?_
  · intro process next became
    obtain rfl : change process = next := Option.some.inj became
    exact child process
  · intro process member next room became role
    obtain rfl : change process = next := Option.some.inj became
    exact ⟨room, serving process member room role, rfl, rfl⟩

theorem filter (ranked : Ranked processes) (stays : Process → Bool) :
    Ranked (processes.filter stays) := by
  rw [← List.filterMap_eq_filter]
  refine ranked.narrow ?_ ?_
  · intro process next became
    obtain ⟨rfl, -⟩ := Option.guard_eq_some_iff.mp became
    exact .inr rfl
  · intro process _ next room became role
    obtain ⟨rfl, -⟩ := Option.guard_eq_some_iff.mp became
    exact ⟨room, role, rfl, rfl⟩

theorem exec (ranked : Ranked processes) {step : ChatStep} (positive : step.Positive) :
    Ranked (step.exec processes) := by
  cases step with
  | accept server address connfd forked =>
      by_cases serves : ∃ process ∈ processes, process.pid = server ∧
          ∃ room, process.role = .serving room
      · obtain ⟨process, member, rfl, room, role⟩ := serves
        obtain ⟨before, after, rfl⟩ := List.append_of_mem member
        rw [ChatStep.exec_accept role (ranked.others role)]
        exact ranked.accept role address connfd positive
      · rwa [ChatStep.exec_accept_idle]
        rintro process member rfl
        exact Bool.eq_false_iff.mpr fun is =>
          serves ⟨process, member, rfl, Role.serves_iff.mp is⟩
  | exit pid =>
      refine ranked.map ?_ ?_
      · intro process
        by_cases same : process.pid = pid
        · exact .inl (by simp [same, Process.runChild?])
        · exact .inr (by rw [if_neg same])
      · intro process _ room role
        by_cases same : process.pid = pid
        · simp [same] at role
        · rwa [if_neg same] at role
  | reap server pid =>
      refine (ranked.filter fun process => process.pid ≠ pid).map ?_ ?_
      · intro process
        cases role : process.role with
        | serving room =>
            by_cases same : process.pid = server <;> simp [same, role, Process.runChild?]
        | runChild idx client => exact .inr rfl
        | ended => exact .inr rfl
      · intro process member room
        cases role : process.role with
        | serving old =>
            have unknown := ranked.index process (List.mem_filter.mp member).1 old role
            by_cases same : process.pid = server
            · simp [same, reapChild unknown positive]
            · simp [same, role]
        | runChild idx client => simp [role]
        | ended => simp [role]

end Ranked

end ChatRoom

open ChatRoom in
/-- Whatever positive pids `fork` and `waitpid` return, and in whichever order the clients come
and the children end, the segments of the children stay apart. -/
theorem subprocessChatRoom_exclusive (pid parent : Int) (unset : Int → ClientData)
    (steps : List ChatStep) (positive : ∀ step ∈ steps, step.Positive) :
    Throughout Exclusive ChatStep.exec (start pid parent unset) steps := by
  have run : ∀ processes, Ranked processes →
      Throughout Exclusive ChatStep.exec processes steps := by
    induction steps with
    | nil => exact fun processes ranked => ranked.exclusive
    | cons step steps ih =>
        rw [List.forall_mem_cons] at positive
        exact fun processes ranked =>
          ⟨ranked.exclusive, ih positive.2 _ (ranked.exec positive.1)⟩
  exact run _ (Ranked.start pid parent unset)

/-- Two clients are served, the first one leaves, and a third one comes. -/
theorem subprocessChatRoom_exclusive_leaving :
    (∀ step ∈ [ChatStep.accept 100 1 5 (some 101), .accept 101 2 5 (some 102), .exit 100,
        .reap 102 100, .accept 102 3 5 (some 103)], step.Positive) ∧
      Throughout ChatRoom.Exclusive ChatStep.exec (ChatRoom.start 100 1 fun _ => ⟨0, 0, 0⟩)
        [.accept 100 1 5 (some 101), .accept 101 2 5 (some 102), .exit 100, .reap 102 100,
          .accept 102 3 5 (some 103)] :=
  ⟨by decide, subprocessChatRoom_exclusive 100 1 _ _ (by decide)⟩

end HPLinuxServer.Execution
