import HPLinuxServer.Http.FileMapping

/-!
# Life cycle of the mapped file

A mapping is forgotten where `do_request` looks up the next file before `unmap`, and
`unmap` goes wrong where `m_file_address` holds something that never was a mapping. A
sequence of calls that avoids both keeps object and mappings paired, and no other does.
-/

set_option autoImplicit false

namespace HPLinuxServer.Http

open Memory Refinement

/-! ## What `write` and `process` unmap -/

section Unmapping

open MappedConn

variable {conn : HttpConn}

theorem munmaps_append (first second : List Effect) :
    munmaps (first ++ second) = munmaps first ++ munmaps second :=
  List.filterMap_append

theorem munmaps_unmap (conn : HttpConn) :
    munmaps conn.unmap.2 =
      conn.fileAddress.toList.map fun address => ⟨address, conn.fileState.size⟩ := by
  unfold HttpConn.unmap
  split
  · next null => rw [null]; rfl
  · next known => rw [known]; rfl

theorem file_unmap (conn : HttpConn) : conn.unmap.1.file = (none, conn.fileState) := by
  unfold HttpConn.unmap
  split
  · next null => exact congrArg (·, conn.fileState) null
  · rfl

/-- What a call of `write` leaves of the file: it is unmapped, or not touched. -/
structure Unmaps (conn : HttpConn) (unmaps : Bool) (final : HttpConn) (effects : List Effect) :
    Prop where
  file : final.file = if unmaps then (none, conn.fileState) else conn.file
  calls : munmaps effects = if unmaps then munmaps conn.unmap.2 else []

theorem unmaps_error : Unmaps conn true conn.unmap.1 conn.unmap.2 where
  file := file_unmap conn
  calls := rfl

theorem unmaps_sent (final : HttpConn) (same : final.file = conn.unmap.1.file) (count : Nat) :
    Unmaps conn true final
      (.sent conn.iv count :: conn.unmap.2 ++ [.epollMod conn.sockfd .input]) where
  file := same.trans (file_unmap conn)
  calls := by
    rw [munmaps_append]
    exact List.append_nil _

theorem unmaps_writeLoop (bytesToSend bytesHaveSend : Int) (results : List WritevResult) :
    Unmaps conn (HttpConn.loopUnmaps bytesToSend bytesHaveSend results)
      (conn.writeLoop bytesToSend bytesHaveSend results).1
      (conn.writeLoop bytesToSend bytesHaveSend results).2.1 := by
  induction results generalizing bytesToSend bytesHaveSend with
  | nil => exact ⟨rfl, rfl⟩
  | cons result results ih =>
      cases result with
      | again => exact ⟨rfl, rfl⟩
      | error => exact unmaps_error
      | sent count =>
          unfold HttpConn.writeLoop HttpConn.writeRound HttpConn.loopUnmaps
          dsimp only
          by_cases enough : bytesToSend - count ≤ bytesHaveSend + count
          · rw [if_pos enough, decide_eq_true enough, Bool.true_or]
            cases conn.linger with
            | true => exact unmaps_sent _ (by rfl) count
            | false => exact unmaps_sent _ (by rfl) count
          · rw [if_neg enough, decide_eq_false enough, Bool.false_or]
            have rest := ih (bytesToSend - count) (bytesHaveSend + count)
            exact ⟨rest.file, rest.calls⟩

variable (conn) in
theorem unmaps_write (results : List WritevResult) :
    Unmaps conn (conn.writeUnmaps results) (conn.write results).1 (conn.write results).2.1 := by
  unfold HttpConn.writeUnmaps HttpConn.write HttpConn.writeBegin
  by_cases empty : conn.writeIdx = 0
  · rw [if_pos empty, decide_eq_false (not_not_intro empty), Bool.false_and]
    exact ⟨rfl, rfl⟩
  · rw [if_neg empty, decide_eq_true empty, Bool.true_and]
    exact unmaps_writeLoop conn.writeIdx 0 results

theorem munmaps_processed {before now : Int} {effects : List Effect}
    (processed : HttpConn.Processed before now effects) : munmaps effects = [] := by
  cases processed with
  | more => rfl
  | answer => rfl
  | refuse => rfl

theorem munmaps_closeConn (conn : HttpConn) : munmaps conn.closeConn.2 = [] := by
  unfold HttpConn.closeConn
  split <;> rfl

end Unmapping

namespace MappedConn

/-! ## One step -/

variable {state : MappedConn} {conn : HttpConn} {effects : List Effect}

theorem after_eq (calls : munmaps effects = []) :
    state.after conn effects = { state with conn } := by
  unfold after
  rw [calls]
  rfl

/-- The pairing is about the members `file`. -/
theorem Paired.withConn (paired : Paired state) (same : conn.file = state.conn.file) :
    Paired { state with conn } :=
  { paired with
    known := fun mapping isLive => by
      obtain ⟨address, size⟩ := paired.known mapping isLive
      exact ⟨(congrArg Prod.fst same).trans address,
        (congrArg (fun file => file.2.size) same).trans size⟩ }

theorem Paired.after_same (paired : Paired state) (same : conn.file = state.conn.file)
    (calls : munmaps effects = []) : Paired (state.after conn effects) := by
  rw [after_eq calls]
  exact paired.withConn same

/-- The only mapping, when there is one. -/
theorem Paired.live_eq (paired : Paired state) (some_live : state.live ≠ []) {address : Addr}
    (known : state.conn.fileAddress = some address) :
    state.live = [⟨address, state.conn.fileState.size⟩] := by
  cases live : state.live with
  | nil => exact absurd live some_live
  | cons mapping others =>
      have one := paired.atMostOne
      obtain ⟨same, size⟩ := paired.known mapping (live ▸ List.mem_cons_self)
      obtain rfl : address = mapping.address := Option.some.inj (known.symm.trans same)
      obtain rfl : others = [] := by
        rw [live] at one
        exact List.eq_nil_of_length_eq_zero (Nat.le_zero.mp (Nat.le_of_succ_le_succ one))
      rw [size]

theorem after_munmap {mapping : Mapping} (calls : munmaps effects = [mapping]) :
    state.after conn effects = { state with conn }.munmap mapping := by
  unfold after
  rw [calls]
  rfl

theorem paired_munmap_iff (paired : Paired state) {address : Addr}
    (known : state.conn.fileAddress = some address) (conn : HttpConn) :
    Paired ({ state with conn }.munmap ⟨address, state.conn.fileState.size⟩) ↔
      state.live ≠ [] := by
  unfold munmap
  dsimp only
  constructor
  · intro again none_live
    have proper := again.proper
    rw [none_live, if_neg List.not_mem_nil] at proper
    exact absurd proper (List.append_ne_nil_of_right_ne_nil _ (List.cons_ne_nil _ _))
  · intro some_live
    have live := paired.live_eq some_live known
    have once := paired.once
    rw [live] at once ⊢
    rw [if_pos List.mem_cons_self, List.erase_cons_head]
    exact {
      atMostOne := Nat.zero_le 1
      known := fun _ isLive => absurd isLive List.not_mem_nil
      once := once.trans List.perm_append_comm
      kept := paired.kept
      proper := paired.proper }

theorem paired_write_iff (paired : Paired state) (results : List WritevResult) :
    Paired (state.after (state.conn.write results).1 (state.conn.write results).2.1) ↔
      Releases state (.write results) := by
  have spec := unmaps_write state.conn results
  unfold Releases
  cases unmaps : state.conn.writeUnmaps results with
  | false =>
      rw [unmaps] at spec
      exact iff_of_true (paired.after_same spec.file spec.calls) fun yes =>
        absurd (unmaps.symm.trans yes) Bool.false_ne_true
  | true =>
      rw [unmaps] at spec
      have calls := spec.calls.trans (munmaps_unmap state.conn)
      cases known : state.conn.fileAddress with
      | none =>
          rw [known] at calls
          have same : (state.conn.write results).1.file = state.conn.file :=
            spec.file.trans (congrArg (·, state.conn.fileState) known.symm)
          exact iff_of_true (paired.after_same same calls) fun _ => .inl rfl
      | some address =>
          rw [known] at calls
          rw [after_munmap calls, paired_munmap_iff paired known]
          exact ⟨fun live _ => .inr live, fun released =>
            (released unmaps).resolve_left (Option.some_ne_none _)⟩

/-- What `do_request` does with a file that `stat` finds. -/
theorem doRequest_found (state : MappedConn) {files : FileSystem} {path : Text} {fileState : FileStat}
    (found : files.stat path = some fileState) :
    state.doRequest files (some path) = state.overwrite ∨
      state.doRequest files (some path) =
          state.overwrite.mmap ⟨files.map path fileState.size, fileState.size⟩ ∧
        state.conn.lookedFor files (some path) = (some (files.map path fileState.size), fileState) := by
  unfold doRequest HttpConn.lookedFor HttpConn.openFile
  simp only [found]
  by_cases readable : fileState.readableByOthers = true
  · by_cases directory : fileState.isDirectory = true
    · rw [if_neg fun both => both.2 directory]
      exact .inl rfl
    · rw [if_pos ⟨readable, directory⟩, if_neg (not_not_intro readable), if_neg directory]
      split
      · exact .inl rfl
      · exact .inr ⟨rfl, rfl⟩
  · rw [if_neg fun both => readable both.1]
    exact .inl rfl

/-- Looking up a file keeps the pairing exactly if no mapping is there. -/
theorem paired_doRequest_iff (paired : Paired state) {files : FileSystem} {path : Text}
    {fileState : FileStat} (found : files.stat path = some fileState)
    (looked : conn.file = state.conn.lookedFor files (some path)) :
    Paired { state.doRequest files (some path) with conn } ↔ state.live = [] := by
  have forgotten (again : state.overwritten ++ state.live = []) : state.live = [] :=
    (List.append_eq_nil_iff.mp again).2
  have nothing_forgotten (none_live : state.live = []) : state.overwritten ++ state.live = [] := by
    rw [paired.kept, none_live]
    rfl
  rcases doRequest_found state found with same | ⟨same, file⟩
  · rw [same]
    refine ⟨fun again => forgotten again.kept, fun none_live => ?_⟩
    exact { paired with
      known := fun mapping isLive => absurd (none_live ▸ isLive) List.not_mem_nil
      kept := nothing_forgotten none_live }
  · rw [same]
    refine ⟨fun again => forgotten again.kept, fun none_live => ?_⟩
    have new := looked.trans file
    have once := paired.once
    refine ⟨?_, ?_, ?_, nothing_forgotten none_live, paired.proper⟩
    · dsimp only [mmap, overwrite]
      rw [none_live]
      exact Nat.le_refl 1
    · intro mapping isLive
      dsimp only [mmap, overwrite] at isLive
      rw [none_live, List.nil_append, List.mem_singleton] at isLive
      rw [isLive]
      exact ⟨congrArg Prod.fst new, congrArg (fun file => file.2.size) new⟩
    · dsimp only [mmap, overwrite]
      rw [none_live] at once ⊢
      exact (once.append_right _).trans List.perm_append_comm

theorem exec_process (files : FileSystem) {fuel : Nat} {path : Option Text}
    (requested : state.conn.requestedPath fuel = .ok path) :
    ∃ final, exec state (.process files fuel) = .ok { state.doRequest files path with conn := final } ∧
      final.file = state.conn.lookedFor files path := by
  obtain ⟨final, effects, processed, looked, spec⟩ :=
    HttpConn.process_of_requestedPath files requested
  refine ⟨final, ?_, looked⟩
  simp only [exec, requested, processed, ok_bind, pure_eq_ok, after_eq (munmaps_processed spec)]

theorem exec_process_error {files : FileSystem} {fuel : Nat} {fault : Fault}
    (failed : state.conn.requestedPath fuel = .error fault) :
    exec state (.process files fuel) = .error fault := by
  simp only [exec, failed, error_bind]

theorem paired_process_iff (paired : Paired state) (files : FileSystem) (fuel : Nat) :
    Yields (exec state (.process files fuel)) Paired ↔ Releases state (.process files fuel) := by
  simp only [Releases, HttpConn.findsFile]
  cases requested : state.conn.requestedPath fuel with
  | error fault =>
      rw [exec_process_error requested]
      exact iff_of_true (.error fault) fun yes => absurd yes Bool.false_ne_true
  | ok path =>
      obtain ⟨final, executed, looked⟩ := exec_process files requested
      rw [executed, Yields.ok_iff]
      cases path with
      | none => exact iff_of_true (paired.withConn looked) fun yes => absurd yes Bool.false_ne_true
      | some path =>
          cases found : files.stat path with
          | none =>
              have same : final.file = state.conn.file := by
                rw [looked]
                unfold HttpConn.lookedFor HttpConn.openFile
                simp only [found]
              have unchanged : state.doRequest files (some path) = state := by
                unfold doRequest
                simp only [found]
              rw [unchanged]
              refine iff_of_true (paired.withConn same) fun yes => ?_
              simp only [found, Option.isSome_none, Bool.false_eq_true] at yes
          | some fileState =>
              rw [paired_doRequest_iff paired found looked]
              simp only [found, Option.isSome_some, forall_const]

/-- One operation, from a paired state, leads to one exactly if it `Releases`. -/
theorem paired_step_iff (state : MappedConn) (op : Op) (paired : Paired state) :
    Yields (exec state op) Paired ↔ Releases state op := by
  cases op with
  | init sockfd => exact iff_of_true (.ok (paired.after_same rfl rfl)) trivial
  | read results =>
      have same : (state.conn.read results).1.file = state.conn.file :=
        congrArg (fun held => held.1.2) (state.conn.lasting_read results)
      exact iff_of_true (.ok (paired.after_same same rfl)) trivial
  | process files fuel => exact paired_process_iff paired files fuel
  | write results => exact Yields.ok_iff.trans (paired_write_iff paired results)
  | closeConn =>
      have same := state.conn.file_closeConn
      exact iff_of_true (.ok (paired.after_same same (munmaps_closeConn _))) trivial

/-! ## Runs -/

theorem paired_start (conn : HttpConn) : Paired (start conn) where
  atMostOne := Nat.zero_le 1
  known := fun _ isLive => absurd isLive List.not_mem_nil
  once := .nil
  kept := rfl
  proper := rfl

/-- Whatever the object holds at first, its mappings are paired with it in every state
that a sequence of calls reaches, exactly if every call `Releases`. -/
theorem fileMapping_lifeCycle_iff (conn : HttpConn) (ops : List Op) :
    ReachesOnly Paired exec (start conn) ops ↔ StepsMeet Releases exec (start conn) ops :=
  (reachesOnly_iff_meets paired_step_iff).trans (and_iff_right (paired_start conn))

/-- Every path is a page of five bytes, mapped at `address`. -/
def pageAt (address : Addr) : FileSystem where
  stat := fun _ => some { mode := 0o100644, size := 5 }
  map := fun _ _ => address

def pageRequest : RecvResult := .data (ascii "GET /a HTTP/1.1")

/-- A client asks for a page and hangs up before it is written. The next one on the same
descriptor asks again, and the first mapping is forgotten. -/
theorem fileMapping_forgotten :
    ¬ ReachesOnly Paired exec (start idleConn)
      [.init 5, .read [pageRequest], .process (pageAt 0x1000) 8, .closeConn,
        .init 5, .read [pageRequest], .process (pageAt 0x2000) 8] := by
  decide +kernel

end MappedConn

end HPLinuxServer.Http
