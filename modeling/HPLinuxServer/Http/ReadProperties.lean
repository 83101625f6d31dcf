import HPLinuxServer.Http.HttpResponse

/-!
# What `read` makes of the deliveries

`read` takes what the kernel has until there is nothing more for now. Its only sign of
the end of file is that `recv` returns 0, and `recv` returns 0 as well once the buffer
has no room left.
-/

set_option autoImplicit false

namespace HPLinuxServer.Http

open Memory

namespace RecvResult

/-- The data in front of the first result that is none. -/
def arrived : List RecvResult → List UInt8
  | .data bytes :: results => bytes ++ arrived results
  | _ => []

/-- The first result that is no data. -/
def ending : List RecvResult → RecvResult
  | .data _ :: results => ending results
  | result :: _ => result
  | [] => .again

/-- An error or the end of file comes behind the data. -/
def Breaks (results : List RecvResult) : Prop :=
  ending results = .error ∨ ending results = .endOfFile

theorem ending_noData (results : List RecvResult) (bytes : List UInt8) :
    ending results ≠ .data bytes := by
  induction results with
  | nil =>
      intro same
      cases same
  | cons result results ih =>
      cases result with
      | data _ => exact ih
      | again | endOfFile | error =>
          intro same
          cases same

theorem breaks_of_not_again {results : List RecvResult} (other : ending results ≠ .again) :
    Breaks results := by
  have noData := ending_noData results
  unfold Breaks
  generalize ending results = last at *
  cases last with
  | data bytes => exact absurd rfl (noData bytes)
  | again => exact absurd rfl other
  | endOfFile => exact .inr rfl
  | error => exact .inl rfl

end RecvResult

open RecvResult

namespace HttpConn

variable {conn : HttpConn} {results : List RecvResult}

/-- `bytes` behind what has been read. -/
def receive (conn : HttpConn) (bytes : List UInt8) : HttpConn :=
  { conn with
    readBuf := conn.readBuf.copyIn conn.readIdx bytes
    readIdx := conn.readIdx + bytes.length }

/-- The space that is left in `m_read_buf`. -/
def room (conn : HttpConn) : Nat := readBufferSize - conn.readIdx

/-- `read` neither drops data nor takes data for the end of the connection. -/
structure ReadsFaithfully (conn : HttpConn) (results : List RecvResult) : Prop where
  extends_buffer : ending results = .again → (arrived results).length ≤ conn.room →
    conn.read results = (conn.receive (arrived results), true)
  inside : (conn.read results).1.readIdx ≤ readBufferSize
  refuses : (conn.read results).2 = false →
    Breaks results ∨ conn.room < (arrived results).length

/-- The data fits with no byte to spare, and the connection goes on. -/
def ExactFill (conn : HttpConn) (results : List RecvResult) : Prop :=
  ending results = .again ∧ (arrived results).length = conn.room

theorem receive_nil (conn : HttpConn) : conn.receive [] = conn := by
  unfold receive
  rw [Buffer.copyIn_nil]
  rfl

theorem receive_receive {first second : List UInt8}
    (fits : first.length + second.length ≤ conn.room) (opened : conn.readIdx ≤ readBufferSize) :
    (conn.receive first).receive second = conn.receive (first ++ second) := by
  have inside : conn.readIdx + first.length + second.length ≤ readBufferSize := by
    unfold room at fits
    omega
  unfold receive
  dsimp only
  rw [Buffer.copyIn_copyIn inside, List.length_append, Nat.add_assoc]

theorem room_receive (conn : HttpConn) (bytes : List UInt8) :
    (conn.receive bytes).room = conn.room - bytes.length :=
  Nat.sub_add_eq _ _ _

theorem readIdx_of_full (opened : conn.readIdx ≤ readBufferSize) (full : conn.room = 0) :
    conn.readIdx = readBufferSize :=
  Nat.le_antisymm opened (Nat.le_of_sub_eq_zero full)

theorem recv_full (result : RecvResult) : recv 0 result = .endOfFile := by
  cases result <;> rfl

theorem recv_data {space : Nat} (hasRoom : 0 < space) (bytes : List UInt8) :
    recv space (.data bytes) = .data (bytes.take space) :=
  if_neg (Nat.pos_iff_ne_zero.mp hasRoom)

/-- As long as there is room, a result that is no data is passed on. -/
theorem recv_ending {space : Nat} (hasRoom : 0 < space) {result : RecvResult}
    (noData : ∀ bytes, result ≠ .data bytes) : recv space result = result := by
  cases result with
  | data bytes => exact absurd rfl (noData bytes)
  | again => exact if_neg (Nat.pos_iff_ne_zero.mp hasRoom)
  | endOfFile => rfl
  | error => exact if_neg (Nat.pos_iff_ne_zero.mp hasRoom)

theorem readLoop_data {bytes taken : List UInt8} (received : recv conn.room (.data bytes) = .data taken) :
    conn.readLoop (.data bytes :: results) = (conn.receive taken).readLoop results := by
  unfold room at received
  rw [readLoop, received]
  rfl

theorem readLoop_ending (hasRoom : 0 < conn.room) {result : RecvResult}
    (noData : ∀ bytes, result ≠ .data bytes) :
    conn.readLoop (result :: results) = (conn, decide (result = .again)) := by
  have passed := recv_ending hasRoom noData
  unfold room at passed
  rw [readLoop, passed]
  cases result with
  | data bytes => exact absurd rfl (noData bytes)
  | again => rfl
  | endOfFile => rfl
  | error => rfl

theorem readLoop_full (full : conn.room = 0) : conn.readLoop results = (conn, false) := by
  unfold room at full
  cases results with
  | nil =>
      unfold readLoop
      rw [full]
      rfl
  | cons result results =>
      unfold readLoop
      rw [full, recv_full]

/-- The loop on data that leaves room in the buffer. -/
theorem readLoop_spare (spare : (arrived results).length < conn.room) :
    conn.readLoop results =
      (conn.receive (arrived results), decide (ending results = .again)) := by
  induction results generalizing conn with
  | nil =>
      have again : recv conn.room .again = .again := recv_ending spare fun _ same => by cases same
      unfold room at again
      rw [show arrived [] = [] from rfl, receive_nil, readLoop, again]
      rfl
  | cons result results ih =>
      have hasRoom : 0 < conn.room := Nat.lt_of_le_of_lt (Nat.zero_le _) spare
      have opened : conn.readIdx ≤ readBufferSize := by
        unfold room at hasRoom
        omega
      cases result with
      | data bytes =>
          have whole : bytes.length + (arrived results).length < conn.room := by
            rw [← List.length_append]
            exact spare
          have taken := recv_data hasRoom bytes
          rw [List.take_of_length_le (by omega)] at taken
          rw [readLoop_data taken, ih (by rw [room_receive]; omega),
            receive_receive (Nat.le_of_lt whole) opened]
          rfl
      | again | endOfFile | error =>
          rw [readLoop_ending hasRoom fun _ same => by cases same]
          exact congrArg (Prod.mk · _) (receive_nil conn).symm

/-- The loop on data that does not. -/
theorem readLoop_fills (opened : conn.readIdx ≤ readBufferSize)
    (fills : conn.room ≤ (arrived results).length) :
    (conn.readLoop results).1.readIdx = readBufferSize ∧ (conn.readLoop results).2 = false := by
  induction results generalizing conn with
  | nil =>
      have full : conn.room = 0 := Nat.le_zero.mp fills
      rw [readLoop_full full]
      exact ⟨readIdx_of_full opened full, rfl⟩
  | cons result results ih =>
      rcases Nat.eq_zero_or_pos conn.room with full | some
      · rw [readLoop_full full]
        exact ⟨readIdx_of_full opened full, rfl⟩
      · cases result with
        | data bytes =>
            have taken := recv_data some bytes
            have length : (bytes.take conn.room).length = min conn.room bytes.length :=
              List.length_take
            have more : conn.room ≤ bytes.length + (arrived results).length := by
              rw [← List.length_append]
              exact fills
            rw [readLoop_data taken]
            refine ih ?_ ?_
            · show conn.readIdx + (bytes.take conn.room).length ≤ readBufferSize
              unfold room at length ⊢
              omega
            · rw [room_receive]
              omega
        | again | endOfFile | error => exact absurd (Nat.le_zero.mp fills) (Nat.pos_iff_ne_zero.mp some)

theorem read_eq_readLoop (started : conn.readIdx < readBufferSize) :
    conn.read results = conn.readLoop results :=
  if_neg (Nat.not_le.mpr started)

theorem read_readIdx_le (started : conn.readIdx < readBufferSize) (results : List RecvResult) :
    (conn.read results).1.readIdx ≤ readBufferSize := by
  rw [read_eq_readLoop started]
  rcases Nat.lt_or_ge (arrived results).length conn.room with spare | fills
  · rw [readLoop_spare spare]
    show conn.readIdx + (arrived results).length ≤ readBufferSize
    unfold room at spare
    omega
  · exact Nat.le_of_eq (readLoop_fills (Nat.le_of_lt started) fills).1

theorem ExactFill.refused (exact : conn.ExactFill results) (started : conn.readIdx < readBufferSize) :
    (conn.read results).2 = false := by
  rw [read_eq_readLoop started]
  exact (readLoop_fills (Nat.le_of_lt started) (Nat.le_of_eq exact.2.symm)).2

theorem ExactFill.not_faithful (exact : conn.ExactFill results)
    (started : conn.readIdx < readBufferSize) : ¬ conn.ReadsFaithfully results := by
  intro faithful
  have refused := exact.refused started
  rw [faithful.extends_buffer exact.1 (Nat.le_of_eq exact.2)] at refused
  cases refused

theorem read_faithful_iff (conn : HttpConn) (results : List RecvResult)
    (started : conn.readIdx ≤ readBufferSize - 1) :
    conn.ReadsFaithfully results ↔ ¬ conn.ExactFill results := by
  have started : conn.readIdx < readBufferSize := Nat.lt_of_le_pred (Nat.zero_lt_succ 2047) started
  constructor
  · intro faithful exact
    exact exact.not_faithful started faithful
  · intro inexact
    refine ⟨fun again fits => ?_, read_readIdx_le started results, fun refused => ?_⟩
    · have spare : (arrived results).length < conn.room :=
        Nat.lt_of_le_of_ne fits fun exact => inexact ⟨again, exact⟩
      rw [read_eq_readLoop started, readLoop_spare spare, decide_eq_true again]
    · rcases Nat.lt_trichotomy (arrived results).length conn.room with spare | exact | beyond
      · rw [read_eq_readLoop started, readLoop_spare spare] at refused
        exact .inl (breaks_of_not_again (of_decide_eq_false refused))
      · exact .inl (breaks_of_not_again fun again => inexact ⟨again, exact⟩)
      · exact .inr beyond

/-- A connection that has been accepted and not read from. -/
def freshConn : HttpConn := (idleConn.init 5).1

theorem read_faithful_iff_hello :
    freshConn.ReadsFaithfully [.data (ascii "GET"), .again] ↔
      ¬ freshConn.ExactFill [.data (ascii "GET"), .again] :=
  read_faithful_iff freshConn _ (by decide)

theorem exactFill_request {request : List UInt8} (length : request.length = conn.room) :
    conn.ExactFill [.data request, .again] :=
  ⟨rfl, (congrArg List.length (List.append_nil request)).trans length⟩

/-- A request of `READ_BUFFER_SIZE` bytes on a connection that stays open is refused. -/
theorem read_unfaithful :
    ∃ request : List UInt8, request.length = readBufferSize ∧
      (freshConn.read [.data request, .again]).2 = false ∧
      ¬ freshConn.ReadsFaithfully [.data request, .again] := by
  have started : freshConn.readIdx < readBufferSize := Nat.zero_lt_succ 2047
  have length : (List.replicate readBufferSize (71 : UInt8)).length = readBufferSize :=
    List.length_replicate
  have exact : freshConn.ExactFill [.data (List.replicate readBufferSize 71), .again] :=
    exactFill_request length
  exact ⟨_, length, exact.refused started, exact.not_faithful started⟩

end HttpConn

end HPLinuxServer.Http
