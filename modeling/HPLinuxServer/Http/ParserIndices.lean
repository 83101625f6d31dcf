import HPLinuxServer.Refinement.Runs
import HPLinuxServer.Http.ReadProperties
import HPLinuxServer.Http.ProcessReadTermination

/-!
# The indices of the parser

The string functions that the parser calls know no length. What ends them is the part of
`m_read_buf` that has not been read into, and that there is one: the indices stay in order
and below `READ_BUFFER_SIZE` over any calls of `init`, `read` and `process_read`.
-/

set_option autoImplicit false

namespace HPLinuxServer.Http

open Memory Refinement

/-- A call of the event loop, or of a worker. -/
inductive ParserCall where
  | init (sockfd : Int)
  | read (results : List RecvResult)
  | processRead (files : FileSystem) (fuel : Nat)

/-- What ends a sequence of calls: `read` returned false, or a call has no result. -/
inductive ParserStop where
  | refused
  | fault (fault : Fault)

namespace HttpConn

variable {conn : HttpConn} {results : List RecvResult}

def call (conn : HttpConn) : ParserCall → Except ParserStop HttpConn
  | .init sockfd => .ok (conn.init sockfd).1
  | .read results => if (conn.read results).2 then .ok (conn.read results).1 else .error .refused
  | .processRead files fuel =>
      match conn.processRead files fuel with
      | .ok (conn, _) => .ok conn
      | .error fault => .error (.fault fault)

structure Indexed (conn : HttpConn) : Prop where
  started : 0 ≤ conn.startLine ∧ conn.startLine ≤ conn.checkedIdx
  checked : conn.checkedIdx ≤ conn.readIdx
  read : conn.readIdx < readBufferSize
  unused : ∀ index, conn.readIdx ≤ index → index < readBufferSize →
    conn.readBuf.bytes[index]? = some 0

/-- `get_line()` is a string that ends in the buffer, and no string function that
`process_read` calls from here on leaves it. -/
structure ScansEnd (conn : HttpConn) : Prop where
  getLine : ∃ text, conn.readBuf.Holds conn.startLine text ∧
    conn.startLine + text.length ≤ conn.readIdx
  inside : ∀ files fuel, conn.processRead files fuel ≠ .error .outOfBounds

theorem Parsing.indexed (parsing : conn.Parsing) : conn.Indexed where
  started := ⟨Nat.zero_le _, parsing.started⟩
  checked := parsing.checked
  read := parsing.read
  unused := parsing.unused

/-! ## Where a call can fail -/

/-- The sum of `parse_content` overflows, or the loop goes on. -/
def Unfinished (fault : Fault) : Prop := fault = .signedOverflow ∨ fault = .outOfFuel

theorem Parsing.parseLine_returns (parsing : conn.Parsing) :
    ∃ result, conn.parseLine = .ok result := by
  rcases parsing.parseLine_stops with ⟨-, parsed⟩ | ⟨-, status, -, parsed, -⟩
  · exact ⟨_, parsed⟩
  · exact ⟨_, parsed⟩

theorem Parsing.goesOn_returns (parsing : conn.Parsing) (lineStatus : LineStatus) :
    ∃ result, conn.goesOn lineStatus = .ok result := by
  obtain ⟨⟨parsed, status⟩, done⟩ := parsing.parseLine_returns
  unfold HttpConn.goesOn
  split
  · exact ⟨_, rfl⟩
  · rw [done]
    exact ⟨_, rfl⟩

theorem Parsing.parseRequestLine_returns (parsing : conn.Parsing) {offset : Nat}
    (inside : offset ≤ conn.readIdx) : ∃ result, conn.parseRequestLine offset = .ok result := by
  obtain ⟨line, holds, -⟩ := parsing.holds inside
  obtain ⟨conn', ret, done, -⟩ := conn.parseRequestLine_spec holds
  exact ⟨_, done⟩

theorem Parsing.parseHeaders_failsOnly (parsing : conn.Parsing) {offset : Nat}
    (inside : offset ≤ conn.readIdx) : FailsOnly (conn.parseHeaders offset) Unfinished := by
  obtain ⟨line, holds, -⟩ := parsing.holds inside
  unfold HttpConn.parseHeaders
  rw [holds.text_eq]
  refine .ite (fun _ => .ite (fun _ => .ok _) fun _ => .ok _) fun _ => ?_
  refine .ite (fun _ => .ite (fun _ => .ok _) fun _ => .ok _) fun _ => ?_
  exact .ite (fun _ => .ok _) fun _ => .ite (fun _ => .ok _) fun _ => .ok _

theorem parseContent_failsOnly (conn : HttpConn) (text : Nat) :
    FailsOnly (conn.parseContent text) Unfinished := by
  unfold HttpConn.parseContent
  refine .bind ?_ fun sum _ => .ite (fun _ => .ok _) fun _ => .ok _
  unfold checkInt
  exact .ite (fun _ => .ok _) fun _ => .error (.inl rfl)

theorem Parsing.handleLine_failsOnly (parsing : conn.Parsing) (lineStatus : LineStatus) :
    FailsOnly (conn.handleLine lineStatus) Unfinished := by
  have next := parsing.nextLine
  have inside := Nat.le_trans parsing.started parsing.checked
  unfold HttpConn.handleLine
  dsimp only
  split
  · obtain ⟨result, done⟩ := next.parseRequestLine_returns inside
    rw [done]
    exact .ite (fun _ => .ok _) fun _ => .ok _
  · refine .bind (next.parseHeaders_failsOnly inside) fun _ _ => ?_
    exact .ite (fun _ => .ok _) fun _ => .ite (fun _ => .ok _) fun _ => .ok _
  · exact .bind (parseContent_failsOnly _ _) fun _ _ => .ite (fun _ => .ok _) fun _ => .ok _

theorem Parsing.processReadLoop_failsOnly (parsing : conn.Parsing) (lineStatus : LineStatus)
    (fuel : Nat) : FailsOnly (conn.processReadLoop lineStatus fuel) Unfinished := by
  induction fuel generalizing conn lineStatus with
  | zero => exact .error (.inr rfl)
  | succ fuel ih =>
      obtain ⟨⟨guarded, goes⟩, done⟩ := parsing.goesOn_returns lineStatus
      have parsed := parsing.goesOn lineStatus _ done
      unfold HttpConn.processReadLoop
      rw [done]
      refine .ite (fun _ => ?_) fun _ => .ok _
      refine .bind (parsed.handleLine_failsOnly lineStatus) fun handled found => ?_
      have later := (parsed.handleLine lineStatus _ found).1
      obtain ⟨handled, roundEnd⟩ := handled
      cases roundEnd with
      | leave exit => exact .ok _
      | next status => exact ih later status

theorem Reachable.processRead_failsOnly (reachable : conn.Reachable) (files : FileSystem)
    (fuel : Nat) : FailsOnly (conn.processRead files fuel) Unfinished := by
  have parsing := reachable.parsing
  unfold HttpConn.processRead
  refine .bind (parsing.processReadLoop_failsOnly .lineOk fuel) fun value looped => ?_
  have later := parsing.processReadLoop .lineOk fuel _ looped
  obtain ⟨parsed, exit⟩ := value
  cases exit with
  | code code => exact .ok _
  | doRequest =>
      have opened := reachable.opened.parsing (keeps_processReadLoop _ _ _ looped)
      obtain ⟨result, done⟩ := later.1.doRequest_returns opened.nameEnds (later.2 rfl) files
      dsimp only
      rw [done]
      exact .ok _

theorem Reachable.scansEnd (reachable : conn.Reachable) : conn.ScansEnd where
  getLine := reachable.parsing.line
  inside := fun files fuel failed => by
    rcases reachable.processRead_failsOnly files fuel _ failed with overflow | spent
    · cases overflow
    · cases spent

/-! ## Whole runs -/

/-- A buffer that `read` accepts is not full. -/
theorem read_accepts (accepted : (conn.read results).2 = true) :
    (conn.read results).1.readIdx < readBufferSize := by
  rcases Nat.lt_or_ge conn.readIdx readBufferSize with started | full
  · rw [read_eq_readLoop started] at accepted ⊢
    rcases Nat.lt_or_ge (RecvResult.arrived results).length conn.room with spare | fills
    · rw [readLoop_spare spare]
      show conn.readIdx + (RecvResult.arrived results).length < readBufferSize
      unfold room at spare
      omega
    · have refused := (readLoop_fills (Nat.le_of_lt started) fills).2
      rw [accepted] at refused
      cases refused
  · have refused : conn.read results = (conn, false) := if_pos full
    rw [refused] at accepted
    cases accepted

theorem Reachable.call (reachable : conn.Reachable) (next : ParserCall) :
    Yields (conn.call next) Reachable := by
  cases next with
  | init sockfd => exact .ok (.init conn sockfd)
  | read results =>
      exact .ite (fun accepted => .ok (reachable.read results (read_accepts accepted))) fun _ =>
        .error _
  | processRead files fuel =>
      unfold HttpConn.call
      dsimp only
      split
      · next done => exact .ok (reachable.processRead done)
      · exact .error _

/-- Whenever a call has been made, the indices are in order and the scans stay inside. -/
theorem parser_indices (conn : HttpConn) (sockfd : Int) (calls : List ParserCall) :
    ReachesOnly (fun conn => conn.Indexed ∧ conn.ScansEnd) call (conn.init sockfd).1 calls := by
  have reached : ReachesOnly Reachable call (conn.init sockfd).1 calls :=
    StepsMeet.reachesOnly (fun _ next reachable _ => reachable.call next) (.init conn sockfd)
      (stepsMeet_true _ calls)
  exact reached.mono fun _ reachable => ⟨reachable.parsing.indexed, reachable.scansEnd⟩

end HttpConn

end HPLinuxServer.Http
