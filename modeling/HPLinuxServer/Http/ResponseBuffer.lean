import HPLinuxServer.Http.HttpResponse
import HPLinuxServer.Refinement.Runs

/-!
# The response buffer

`add_response` writes what `vsnprintf` formats behind the first `m_write_idx` bytes of
`m_write_buf`, before it knows whether the text fits, and moves the index only if it does.
So whatever was written in vain, the bytes in front of the index are the texts of the calls
that returned true.
-/

set_option autoImplicit false

namespace HPLinuxServer.Http

open Memory Refinement

namespace HttpConn

variable {conn : HttpConn} {formatted : Text}

variable (conn) in
theorem addResponse_bytes (fits : formatted.length < writeBufferSize - 1 - conn.writeIdx) :
    (conn.addResponse formatted).1.writeIdx = conn.writeIdx + formatted.length ∧
      (conn.addResponse formatted).1.writeBuf.bytes.take (conn.writeIdx + formatted.length) =
        conn.writeBuf.bytes.take conn.writeIdx ++ formatted := by
  have inside : ¬ conn.writeIdx ≥ writeBufferSize := by omega
  have room : ¬ writeBufferSize - 1 - conn.writeIdx = 0 := by omega
  have whole : formatted.take (writeBufferSize - 1 - conn.writeIdx - 1) = formatted :=
    List.take_of_length_le (by omega)
  have length := conn.writeBuf.length_bytes
  unfold addResponse
  simp only [if_neg inside, if_neg room, if_neg (Nat.not_le.mpr fits), whole, true_and]
  rw [Buffer.copyIn_bytes (by simp; omega)]
  have front : (conn.writeBuf.bytes.take conn.writeIdx).length = conn.writeIdx := by
    rw [List.length_take]
    omega
  rw [← List.append_assoc, List.append_assoc _ [0], List.take_left' (by simp [front])]

theorem addResponse_rejects (tooLong : ¬ formatted.length < writeBufferSize - 1 - conn.writeIdx) :
    (conn.addResponse formatted).1.writeIdx = conn.writeIdx ∧
      (conn.addResponse formatted).1.writeBuf.bytes.take conn.writeIdx =
        conn.writeBuf.bytes.take conn.writeIdx := by
  have length := conn.writeBuf.length_bytes
  unfold addResponse
  split
  · exact ⟨rfl, rfl⟩
  · simp only [if_pos (Nat.not_lt.mp tooLong), true_and]
    split
    · rfl
    · rename_i inside room
      rw [Buffer.copyIn_bytes (by simp; omega)]
      rw [List.append_assoc, List.take_append_of_le_length (by rw [List.length_take]; omega),
        List.take_take, Nat.min_self]

theorem addResponse_eq_true_iff (room : conn.writeIdx ≤ writeBufferSize - 2) :
    (conn.addResponse formatted).2 = true ↔
      conn.writeIdx + formatted.length ≤ writeBufferSize - 2 := by
  have size : writeBufferSize = 1024 := rfl
  unfold addResponse
  rw [if_neg (by omega)]
  dsimp only
  split
  · next long => exact iff_of_false Bool.false_ne_true (by omega)
  · next short => exact iff_of_true rfl (by omega)

/-- What `vsnprintf` writes, whether or not the text fits. -/
theorem addResponse_writes (room : conn.writeIdx ≤ writeBufferSize - 2) (formatted : Text) :
    ∃ written : List UInt8,
      (conn.addResponse formatted).1.writeBuf = conn.writeBuf.copyIn conn.writeIdx written ∧
        written.length ≤ writeBufferSize - 1 - conn.writeIdx := by
  have size : writeBufferSize = 1024 := rfl
  refine ⟨formatted.take (writeBufferSize - 1 - conn.writeIdx - 1) ++ [0], ?_, ?_⟩
  · have inside : ¬ conn.writeIdx ≥ writeBufferSize := by omega
    have some_room : ¬ writeBufferSize - 1 - conn.writeIdx = 0 := by omega
    unfold addResponse
    simp only [if_neg inside, if_neg some_room]
    split <;> rfl
  · simp only [List.length_append, List.length_take, List.length_singleton]
    omega

/-- The text has been appended to the response, and nothing else has changed. -/
structure Appended (conn conn' : HttpConn) (text : Text) : Prop where
  writeIdx : conn'.writeIdx = conn.writeIdx + text.length
  bytes : conn'.writeBuf.bytes.take conn'.writeIdx =
    conn.writeBuf.bytes.take conn.writeIdx ++ text
  others : conn' = { conn with writeBuf := conn'.writeBuf, writeIdx := conn'.writeIdx }

theorem Appended.trans {conn' conn'' : HttpConn} {text later : Text}
    (first : conn.Appended conn' text) (second : conn'.Appended conn'' later) :
    conn.Appended conn'' (text ++ later) where
  writeIdx := by rw [second.writeIdx, first.writeIdx, List.length_append, Nat.add_assoc]
  bytes := by rw [second.bytes, first.bytes, List.append_assoc]
  others := by rw [second.others, first.others]

variable (conn) in
theorem addResponse_appends (formatted : Text)
    (fits : conn.writeIdx + formatted.length ≤ writeBufferSize - 2) :
    ∃ conn', conn.addResponse formatted = (conn', true) ∧ conn.Appended conn' formatted := by
  have size : writeBufferSize = 1024 := rfl
  have returned := (addResponse_eq_true_iff (by omega)).mpr fits
  obtain ⟨index, bytes⟩ := conn.addResponse_bytes
    (by omega : formatted.length < writeBufferSize - 1 - conn.writeIdx)
  refine ⟨(conn.addResponse formatted).1, Prod.ext rfl returned, index, index ▸ bytes, ?_⟩
  unfold addResponse
  split
  · rfl
  · dsimp only
    split <;> rfl

end HttpConn

/-! ## Calls one after the other -/

/-- A call of one of the functions that append to the response. -/
inductive ResponsePart where
  | statusLine (status : Int) (title : Text)
  | contentLength (contentLen : Int)
  | linger
  | blankLine
  | content (form : Text)
  deriving DecidableEq, Repr

namespace ResponsePart

def add (conn : HttpConn) : ResponsePart → HttpConn × Bool
  | statusLine status title => conn.addStatusLine status title
  | contentLength contentLen => conn.addContentLength contentLen
  | linger => conn.addLinger
  | blankLine => conn.addBlankLine
  | content form => conn.addContent form

/-- The whole text of the part, where `m_linger` has this value. -/
def text (keepAlive : Bool) : ResponsePart → Text
  | statusLine status title =>
      ascii "HTTP/1.1 " ++ decimal status ++ ascii " " ++ title ++ ascii "\r\n"
  | contentLength contentLen => ascii "Content-Length: " ++ decimal contentLen ++ ascii "\r\n"
  | linger =>
      ascii "Connection: " ++ ascii (if keepAlive then "keep-alive" else "close") ++ ascii "\r\n"
  | blankLine => ascii "\r\n"
  | content form => form

theorem add_eq (conn : HttpConn) (part : ResponsePart) :
    part.add conn = conn.addResponse (part.text conn.linger) := by
  cases part <;> rfl

end ResponsePart

/-- A response that is being put together. -/
structure Composition where
  conn : HttpConn
  /-- the texts of the calls that returned true -/
  accepted : List Text
  deriving DecidableEq, Repr

namespace Composition

def step (composition : Composition) (part : ResponsePart) : Composition where
  conn := (part.add composition.conn).1
  accepted :=
    if (part.add composition.conn).2 then
      composition.accepted ++ [part.text composition.conn.linger]
    else composition.accepted

/-- The limit is kept, and the bytes in front of it are the accepted texts. -/
structure Composed (composition : Composition) : Prop where
  limit : composition.conn.writeIdx ≤ writeBufferSize - 2
  bytes : composition.conn.writeBuf.bytes.take composition.conn.writeIdx =
    composition.accepted.flatten

/-- What a call gives to `vsnprintf`, what that writes, and what the call returns. -/
structure Disciplined (composition : Composition) (part : ResponsePart) : Prop where
  positive : 0 < (writeBufferSize : Int) - 1 - composition.conn.writeIdx
  inside : ∃ written : List UInt8,
    (part.add composition.conn).1.writeBuf =
        composition.conn.writeBuf.copyIn composition.conn.writeIdx written ∧
      (written.length : Int) ≤ writeBufferSize - 1 - composition.conn.writeIdx ∧
      composition.conn.writeIdx + written.length ≤ writeBufferSize
  whole : (part.add composition.conn).2 = true ↔
    composition.conn.writeIdx + (part.text composition.conn.linger).length ≤ writeBufferSize - 2
  refused : (part.add composition.conn).2 = false →
    (part.add composition.conn).1.writeIdx = composition.conn.writeIdx ∧
      (part.add composition.conn).1.writeBuf.bytes.take composition.conn.writeIdx =
        composition.conn.writeBuf.bytes.take composition.conn.writeIdx

variable {composition : Composition}

theorem Composed.disciplined (composed : Composed composition) (part : ResponsePart) :
    Disciplined composition part := by
  have limit := composed.limit
  have size : writeBufferSize = 1024 := rfl
  obtain ⟨written, stored, short⟩ :=
    HttpConn.addResponse_writes limit (part.text composition.conn.linger)
  constructor
  · omega
  · rw [part.add_eq]
    exact ⟨written, stored, by omega, by omega⟩
  · rw [part.add_eq]
    exact HttpConn.addResponse_eq_true_iff limit
  · rw [part.add_eq]
    intro refused
    apply HttpConn.addResponse_rejects
    intro fits
    have accepted := (HttpConn.addResponse_eq_true_iff limit).mpr
      (by omega : composition.conn.writeIdx + (part.text composition.conn.linger).length ≤
        writeBufferSize - 2)
    exact Bool.false_ne_true (refused.symm.trans accepted)

theorem Composed.step (composed : Composed composition) (part : ResponsePart) :
    Composed (composition.step part) := by
  have disciplined := composed.disciplined part
  unfold Composition.step
  cases returned : (part.add composition.conn).2 with
  | false =>
      obtain ⟨index, bytes⟩ := disciplined.refused returned
      constructor
      · dsimp only
        rw [index]
        exact composed.limit
      · dsimp only
        rw [index, bytes]
        exact composed.bytes
  | true =>
      have fits := disciplined.whole.mp returned
      have size : writeBufferSize = 1024 := rfl
      have written := composition.conn.addResponse_bytes
        (by omega : (part.text composition.conn.linger).length <
          writeBufferSize - 1 - composition.conn.writeIdx)
      rw [← part.add_eq] at written
      obtain ⟨index, bytes⟩ := written
      constructor
      · dsimp only
        rw [index]
        exact fits
      · dsimp only
        rw [index, bytes, composed.bytes, if_pos rfl, List.flatten_append, List.flatten_singleton]

/-- For every sequence of calls on an empty response, the accepted texts are in the buffer
at every point, and every call keeps to the space that is left. -/
theorem response_disciplined (conn : HttpConn) (empty : conn.writeIdx = 0)
    (parts : List ResponsePart) :
    Throughout Composed Composition.step { conn, accepted := [] } parts ∧
      AllowedRun Disciplined Composition.step { conn, accepted := [] } parts := by
  have composed : Composed { conn, accepted := [] } := by
    constructor
    · exact empty ▸ Nat.zero_le _
    · dsimp only
      rw [empty]
      rfl
  have always : AllowedRun (fun _ _ => True) Composition.step { conn, accepted := [] } parts :=
    allowedRun_true _ parts
  have keeps : ∀ state part, Composed state → True → Composed (state.step part) :=
    fun _ part composed _ => composed.step part
  exact ⟨always.throughout keeps composed,
    (always.and_invariant keeps composed).mono fun _ part met => met.1.disciplined part⟩

theorem response_disciplined_idleConn :
    Throughout Composed Composition.step { conn := idleConn, accepted := [] }
        [.statusLine 200 ok200Title, .content (List.replicate 2000 65), .blankLine] ∧
      AllowedRun Disciplined Composition.step { conn := idleConn, accepted := [] }
        [.statusLine 200 ok200Title, .content (List.replicate 2000 65), .blankLine] :=
  response_disciplined idleConn rfl _

end Composition

end HPLinuxServer.Http
