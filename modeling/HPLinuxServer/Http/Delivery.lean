import Mathlib.Tactic.Tauto
import HPLinuxServer.Http.ResponseBuffer

/-!
# Delivery of a response

The calls of `write` that send one response, one round for each result of `writev`.
The counts of `write` are local and compared with each other, and `m_iv` never
moves on, so every `writev` starts at the first byte again.
-/

set_option autoImplicit false

namespace HPLinuxServer.Http

open Memory Refinement

/-- The delivery of a response: in a call of `write`, or over. -/
inductive Phase where
  | writing (bytesToSend bytesHaveSend : Int)
  | completed
  | failed
  deriving DecidableEq, Repr

/-- A connection with the bytes handed to the socket so far. -/
structure Delivery where
  conn : HttpConn
  handed : List UInt8
  phase : Phase
  deriving DecidableEq, Repr

/-- The bytes that `m_iv` describes, where the mapped file holds `file`. -/
def HttpConn.gather (conn : HttpConn) (file : List UInt8) (iv : List IoVec) : List UInt8 :=
  iv.flatMap fun
    | .writeBuf length => conn.writeBuf.bytes.take length
    | .file _ length => file.take length

/-- The response: `m_write_idx` bytes of header, and the file if `m_iv` has it. -/
def HttpConn.response (conn : HttpConn) (file : List UInt8) : List UInt8 :=
  conn.writeBuf.bytes.take conn.writeIdx ++
    if conn.iv.length = 2 then file.take conn.fileState.size else []

namespace Delivery

/-- A call of `write`, up to its first `writev`. -/
def call (delivery : Delivery) : Delivery :=
  match delivery.conn.writeBegin with
  | (conn, _, .looping bytesToSend bytesHaveSend) =>
      { delivery with conn, phase := .writing bytesToSend bytesHaveSend }
  | (conn, _, .returned _) => { delivery with conn, phase := .completed }

def start (conn : HttpConn) : Delivery :=
  call { conn, handed := [], phase := .failed }

/-- The bytes that these effects hand over. -/
def taken (conn : HttpConn) (file : List UInt8) (effects : List Effect) : List UInt8 :=
  effects.flatMap fun
    | .sent iv count => (conn.gather file iv).take count
    | _ => []

/-- The next result of `writev`. After EAGAIN the loop is entered again by a later
call; after a completion or an error there is none. -/
def next (file : List UInt8) (delivery : Delivery) (result : WritevResult) : Delivery :=
  match delivery.phase with
  | .writing bytesToSend bytesHaveSend =>
      match delivery.conn.writeRound bytesToSend bytesHaveSend result with
      | (conn, effects, state) =>
          let handed := delivery.handed ++ taken delivery.conn file effects
          match result, state with
          | .again, _ => call { conn, handed, phase := delivery.phase }
          | .error, _ => { conn, handed, phase := .failed }
          | .sent _, .looping bytesToSend bytesHaveSend =>
              { conn, handed, phase := .writing bytesToSend bytesHaveSend }
          | .sent _, .returned _ => { conn, handed, phase := .completed }
  | .completed => delivery
  | .failed => delivery

/-- What was handed over is a start of the response, and all of it on completion. -/
def InOrder (response : List UInt8) (delivery : Delivery) : Prop :=
  delivery.handed <+: response ∧ (delivery.phase = .completed → delivery.handed = response)

end Delivery

/-- In all states of a delivery the bytes are in order. -/
def DeliversInOrder (conn : HttpConn) (file : List UInt8) (schedule : List WritevResult) : Prop :=
  Throughout (Delivery.InOrder (conn.response file)) (Delivery.next file) (Delivery.start conn)
    schedule

/-- The amounts that are sent before the first error. -/
def amounts : List WritevResult → List Nat
  | [] => []
  | .sent count :: schedule => count :: amounts schedule
  | .again :: schedule => amounts schedule
  | .error :: _ => []

/-- When the code delivers properly: all at once, or less than half of the header and
nothing more. -/
def AllAtOnce (conn : HttpConn) (file : List UInt8) (schedule : List WritevResult) : Prop :=
  match amounts schedule with
  | [] => True
  | first :: later =>
      first = (conn.response file).length ∨ 2 * first < conn.writeIdx ∧ later = []

/-! ## Responses -/

namespace HttpConn

/-- The header starts with an `H` and has no other. -/
def Headed (conn : HttpConn) : Prop :=
  conn.writeIdx ≤ writeBufferSize ∧
    ∃ tail, conn.writeBuf.bytes.take conn.writeIdx = 72 :: tail ∧ 72 ∉ tail

variable {conn : HttpConn} {formatted : Text}

theorem addResponse_headed (headed : conn.Headed) (clean : 72 ∉ formatted) :
    (conn.addResponse formatted).1.Headed := by
  obtain ⟨inside, tail, header, other⟩ := headed
  by_cases fits : formatted.length < writeBufferSize - 1 - conn.writeIdx
  · obtain ⟨index, bytes⟩ := conn.addResponse_bytes fits
    refine ⟨by omega, tail ++ formatted, ?_, ?_⟩
    · rw [index, bytes, header]
      rfl
    · simpa [other] using clean
  · obtain ⟨index, bytes⟩ := addResponse_rejects fits
    exact ⟨by omega, tail, by rw [index, bytes, header], other⟩

theorem addStatusLine_headed (empty : conn.writeIdx = 0) (status : Int) (title : Text)
    (short : (decimal status).length + title.length < 1000) (clean : 72 ∉ title) :
    (conn.addStatusLine status title).1.Headed := by
  have digits : 72 ∉ decimal status := by
    intro member
    rcases mem_decimal member with sign | digit
    · exact absurd sign (by decide)
    · exact absurd digit (by decide)
  have lengths : (ascii "HTTP/1.1 ").length = 9 ∧ (ascii " ").length = 1 ∧
      (ascii "\r\n").length = 2 := by decide
  have size : writeBufferSize = 1024 := rfl
  have fits : (ascii "HTTP/1.1 " ++ decimal status ++ ascii " " ++ title ++
      ascii "\r\n").length < writeBufferSize - 1 - conn.writeIdx := by
    simp only [List.length_append, empty]
    omega
  obtain ⟨index, bytes⟩ := conn.addResponse_bytes fits
  rw [empty, Nat.zero_add] at index bytes
  refine ⟨?_, ascii "TTP/1.1 " ++ decimal status ++ ascii " " ++ title ++ ascii "\r\n", ?_, ?_⟩
  · unfold addStatusLine
    rw [index]
    simp only [List.length_append]
    omega
  · unfold addStatusLine
    rw [index, bytes]
    rfl
  · have parts : 72 ∉ ascii "TTP/1.1 " ∧ 72 ∉ ascii " " ∧ 72 ∉ ascii "\r\n" := by decide
    simp only [List.mem_append]
    tauto

theorem addHeaders_headed (headed : conn.Headed) (contentLen : Int) :
    (conn.addHeaders contentLen).1.Headed := by
  have digits : 72 ∉ decimal contentLen := by
    intro member
    rcases mem_decimal member with sign | digit
    · exact absurd sign (by decide)
    · exact absurd digit (by decide)
  have length : (conn.addContentLength contentLen).1.Headed := by
    apply addResponse_headed headed
    have parts : 72 ∉ ascii "Content-Length: " ∧ 72 ∉ ascii "\r\n" := by decide
    simp only [List.mem_append]
    tauto
  unfold addHeaders
  split
  · rename_i eq
    rw [eq] at length
    exact length
  · rename_i withLength eq
    rw [eq] at length
    have linger : withLength.addLinger.1.Headed := by
      apply addResponse_headed length
      cases withLength.linger with
      | true => decide
      | false => decide
    split
    · rename_i eq
      rw [eq] at linger
      exact linger
    · rename_i eq
      rw [eq] at linger
      exact addResponse_headed linger (by decide)

/-- What `m_iv` describes: the header, or the header and the mapped file. -/
def Described (conn : HttpConn) : Prop :=
  conn.iv = [.writeBuf conn.writeIdx] ∨
    conn.iv = [.writeBuf conn.writeIdx, .file conn.fileAddress conn.fileState.size]

/-- A response that `process_write` has put together. -/
structure Ready (conn : HttpConn) : Prop where
  headed : conn.Headed
  described : conn.Described

theorem addForm_ready (empty : conn.writeIdx = 0) {status : Int} {title form : Text}
    (short : (decimal status).length + title.length < 1000) (cleanTitle : 72 ∉ title)
    (cleanForm : 72 ∉ form) {conn' : HttpConn}
    (done : ivHeader (conn.addForm status title form) = (conn', true)) : conn'.Ready := by
  have headed : (conn.addForm status title form).1.Headed :=
    addResponse_headed (addHeaders_headed (addStatusLine_headed empty status title short cleanTitle) _) cleanForm
  unfold ivHeader at done
  split at done
  · exact nomatch congrArg Prod.snd done
  · rename_i formed eq
    rw [eq] at headed
    obtain rfl := (Prod.mk.inj done).1
    exact ⟨headed, .inl rfl⟩

/-- Every response that `process_write` accepts is described by its `m_iv`. -/
theorem processWrite_ready (empty : conn.writeIdx = 0) {ret : HttpCode} {conn' : HttpConn}
    (done : conn.processWrite ret = (conn', true)) : conn'.Ready := by
  unfold processWrite at done
  cases ret with
  | internalError => exact addForm_ready empty (by decide) (by decide) (by decide) done
  | badRequest => exact addForm_ready empty (by decide) (by decide) (by decide) done
  | noResource => exact addForm_ready empty (by decide) (by decide) (by decide) done
  | forbiddenRequest => exact addForm_ready empty (by decide) (by decide) (by decide) done
  | fileRequest =>
      have headed := addStatusLine_headed empty 200 ok200Title (by decide) (by decide)
      simp only at done
      split at done
      · obtain rfl := (Prod.mk.inj done).1
        exact ⟨addHeaders_headed headed _, .inr rfl⟩
      · exact nomatch congrArg Prod.snd done
  | noRequest => exact nomatch congrArg Prod.snd done
  | getRequest => exact nomatch congrArg Prod.snd done
  | closeConnection => exact nomatch congrArg Prod.snd done

end HttpConn

/-! ## The rounds -/

namespace Delivery

variable {conn : HttpConn} {file : List UInt8}

theorem writeBegin_ready (ready : conn.Ready) :
    conn.writeBegin = (conn, [], .looping conn.writeIdx 0) := by
  have started : conn.writeIdx ≠ 0 := by
    obtain ⟨-, tail, header, -⟩ := ready.headed
    intro empty
    rw [empty] at header
    exact nomatch header
  unfold HttpConn.writeBegin
  rw [if_neg started]

theorem gather_ready (ready : conn.Ready) : conn.gather file conn.iv = conn.response file := by
  unfold HttpConn.gather HttpConn.response
  rcases ready.described with header | both
  · rw [header]
    rfl
  · rw [both]
    simp

theorem call_ready (ready : conn.Ready) (handed : List UInt8) (phase : Phase) :
    call { conn, handed, phase } = { conn, handed, phase := .writing conn.writeIdx 0 } := by
  unfold call
  simp only [writeBegin_ready ready]

theorem next_again (ready : conn.Ready) (handed : List UInt8) (bytesToSend bytesHaveSend : Int) :
    next file { conn, handed, phase := .writing bytesToSend bytesHaveSend } .again =
      { conn, handed, phase := .writing conn.writeIdx 0 } := by
  have nothing : taken conn file [.epollMod conn.sockfd .output] = [] := rfl
  unfold next
  simp only [HttpConn.writeRound, nothing, List.append_nil]
  exact call_ready ready handed _

variable (conn file) in
theorem next_error (handed : List UInt8) (bytesToSend bytesHaveSend : Int) :
    ∃ conn', next file { conn, handed, phase := .writing bytesToSend bytesHaveSend } .error =
      { conn := conn', handed, phase := .failed } := by
  have nothing : taken conn file conn.unmap.2 = [] := by
    unfold HttpConn.unmap
    cases conn.fileAddress with
    | none => rfl
    | some address => rfl
  unfold next
  simp only [HttpConn.writeRound, nothing, List.append_nil]
  exact ⟨_, rfl⟩

/-- A short write that leaves more than it has sent: the loop goes on. -/
theorem next_sent_short (ready : conn.Ready) (handed : List UInt8) {count : Nat}
    {bytesToSend bytesHaveSend : Int}
    (short : ¬ bytesToSend - count ≤ bytesHaveSend + count) :
    next file { conn, handed, phase := .writing bytesToSend bytesHaveSend } (.sent count) =
      { conn, handed := handed ++ (conn.response file).take count
        phase := .writing (bytesToSend - count) (bytesHaveSend + count) } := by
  have bytes : taken conn file [.sent conn.iv count] = (conn.response file).take count := by
    rw [← gather_ready ready]
    exact List.append_nil _
  unfold next
  simp only [HttpConn.writeRound, if_neg short, bytes]

variable (file) in
theorem next_sent_last (ready : conn.Ready) (handed : List UInt8) {count : Nat}
    {bytesToSend bytesHaveSend : Int} (last : bytesToSend - count ≤ bytesHaveSend + count) :
    ∃ conn', next file { conn, handed, phase := .writing bytesToSend bytesHaveSend } (.sent count) =
      { conn := conn', handed := handed ++ (conn.response file).take count, phase := .completed } := by
  have bytes : ∀ interest, taken conn file
      (.sent conn.iv count :: conn.unmap.2 ++ [.epollMod conn.sockfd interest]) =
        (conn.response file).take count := by
    intro interest
    rw [← gather_ready ready]
    unfold HttpConn.unmap
    cases conn.fileAddress with
    | none => exact List.append_nil _
    | some address => exact List.append_nil _
  unfold next
  cases linger : conn.linger with
  | true =>
      simp only [HttpConn.writeRound, if_pos last, linger, if_true, bytes]
      exact ⟨_, rfl⟩
  | false =>
      simp only [HttpConn.writeRound, if_pos last, linger, Bool.false_eq_true, if_false, bytes]
      exact ⟨_, rfl⟩

/-! ## Whole deliveries -/

variable (file) in
theorem response_headed (ready : conn.Ready) :
    ∃ header rest, conn.response file = 72 :: header ++ rest ∧ 72 ∉ header ∧
      conn.writeIdx = header.length + 1 := by
  obtain ⟨inside, header, bytes, other⟩ := ready.headed
  refine ⟨header, if conn.iv.length = 2 then file.take conn.fileState.size else [], ?_, other, ?_⟩
  · unfold HttpConn.response
    rw [bytes]
  · have length := congrArg List.length bytes
    have size := conn.writeBuf.length_bytes
    simp only [List.length_take, List.length_cons] at length
    omega

/-- Behind a part of the header the first bytes of the response are out of order. -/
theorem not_prefix_again (ready : conn.Ready) {count again : Nat} (positive : 1 ≤ count)
    (inside : count < conn.writeIdx) (more : 1 ≤ again) :
    ¬ (conn.response file).take count ++ (conn.response file).take again <+:
      conn.response file := by
  obtain ⟨header, rest, response, other, index⟩ := response_headed file ready
  obtain ⟨count, rfl⟩ := Nat.exists_eq_add_of_le' positive
  obtain ⟨again, rfl⟩ := Nat.exists_eq_add_of_le' more
  have within : count < header.length := by omega
  have behind : (conn.response file).drop (count + 1) =
      header[count] :: (header.drop (count + 1) ++ rest) := by
    rw [response, List.cons_append, List.drop_succ_cons,
      List.drop_append_of_le_length (Nat.le_of_lt within), List.drop_eq_getElem_cons within,
      List.cons_append]
  have repeated : (conn.response file).take (again + 1) = 72 :: (header ++ rest).take again := by
    rw [response, List.cons_append, List.take_succ_cons]
  intro inOrder
  have split := List.take_append_drop (count + 1) (conn.response file)
  generalize (conn.response file).take (count + 1) = front at split inOrder
  rw [← split] at inOrder
  have next := (List.prefix_append_right_inj front).mp inOrder
  rw [split, repeated, behind] at next
  have same : 72 = header[count] := (List.cons_prefix_cons.mp next).1
  apply other
  rw [same]
  exact List.getElem_mem within

variable {response handed : List UInt8}

/-- A delivery that goes on, or has failed, only has to be a part. -/
theorem inOrder_writing (part : handed <+: response) (conn : HttpConn)
    (bytesToSend bytesHaveSend : Int) :
    InOrder response { conn, handed, phase := .writing bytesToSend bytesHaveSend } :=
  ⟨part, nofun⟩

theorem inOrder_failed (part : handed <+: response) (conn : HttpConn) :
    InOrder response { conn, handed, phase := .failed } :=
  ⟨part, nofun⟩

/-- Once a part of the header is out, nothing more may be sent. -/
theorem throughout_underway_iff (ready : conn.Ready) {count : Nat} (positive : 1 ≤ count)
    (inside : count < conn.writeIdx) {schedule : List WritevResult}
    (offered : ∀ count, .sent count ∈ schedule → 1 ≤ count) (bytesToSend bytesHaveSend : Int) :
    Throughout (InOrder (conn.response file)) (next file)
        { conn, handed := (conn.response file).take count
          phase := .writing bytesToSend bytesHaveSend } schedule ↔
      amounts schedule = [] := by
  have part := List.take_prefix count (conn.response file)
  have now := inOrder_writing part conn bytesToSend bytesHaveSend
  induction schedule generalizing bytesToSend bytesHaveSend with
  | nil => exact iff_of_true now rfl
  | cons result schedule ih =>
      have later := ih fun count member => offered count (List.mem_cons_of_mem _ member)
      cases result with
      | again =>
          unfold Throughout
          rw [next_again ready]
          exact (and_iff_right now).trans (later _ _ (inOrder_writing part conn _ _))
      | error =>
          obtain ⟨conn', failed⟩ := next_error conn file
            ((conn.response file).take count) bytesToSend bytesHaveSend
          refine iff_of_true ⟨now, ?_⟩ rfl
          rw [failed]
          exact Throughout.stays (inOrder_failed part conn') (fun _ => rfl) schedule
      | sent again =>
          refine iff_of_false ?_ (List.cons_ne_nil _ _)
          rintro ⟨-, run⟩
          have next := (throughout_iff.mp run [] List.nil_prefix).1
          apply not_prefix_again ready positive inside (offered again List.mem_cons_self)
          by_cases last : bytesToSend - again ≤ bytesHaveSend + again
          · obtain ⟨conn', completed⟩ := next_sent_last file ready
              ((conn.response file).take count) last
            rw [List.foldl_nil, completed] at next
            exact next
          · rw [List.foldl_nil, next_sent_short ready _ last] at next
            exact next

end Delivery

open Delivery in
/-- A response that `process_write` has put together reaches the socket in order, and
`write` completes with all of it, exactly if it goes out at once. The amounts are those
that `writev` can report. -/
theorem deliversInOrder_iff {built conn : HttpConn} {ret : HttpCode} (file : List UInt8)
    (schedule : List WritevResult) (initialised : built.writeIdx = 0)
    (accepted : built.processWrite ret = (conn, true))
    (offered : ∀ count, .sent count ∈ schedule →
      1 ≤ count ∧ count ≤ (conn.response file).length) :
    DeliversInOrder conn file schedule ↔ AllAtOnce conn file schedule := by
  have ready := HttpConn.processWrite_ready initialised accepted
  obtain ⟨header, rest, response, -, index⟩ := response_headed file ready
  have headerFits : conn.writeIdx ≤ (conn.response file).length := by
    rw [response]
    simp only [List.length_append, List.length_cons]
    omega
  have started : start conn = { conn, handed := [], phase := .writing conn.writeIdx 0 } :=
    call_ready ready [] .failed
  have idle := inOrder_writing (List.nil_prefix (l := conn.response file)) conn conn.writeIdx 0
  unfold DeliversInOrder
  rw [started]
  induction schedule with
  | nil => exact iff_of_true idle trivial
  | cons result schedule ih =>
      cases result with
      | again =>
          unfold Throughout
          rw [next_again ready]
          exact (and_iff_right idle).trans
            (ih fun count member => offered count (List.mem_cons_of_mem _ member))
      | error =>
          obtain ⟨conn', failed⟩ := next_error conn file [] conn.writeIdx 0
          refine iff_of_true ⟨idle, ?_⟩ trivial
          rw [failed]
          exact Throughout.stays (inOrder_failed List.nil_prefix conn') (fun _ => rfl) schedule
      | sent count =>
          obtain ⟨positive, atMost⟩ := offered count List.mem_cons_self
          unfold Throughout AllAtOnce
          simp only [amounts]
          by_cases last : (conn.writeIdx : Int) - count ≤ 0 + count
          · obtain ⟨conn', completed⟩ := next_sent_last file ready [] last
            rw [completed, List.nil_append]
            constructor
            · rintro ⟨-, run⟩
              have whole := (throughout_iff.mp run [] List.nil_prefix).2 rfl
              rw [List.foldl_nil] at whole
              have length := congrArg List.length whole
              rw [List.length_take] at length
              omega
            · intro atOnce
              have all : count = (conn.response file).length := by omega
              refine ⟨idle, Throughout.stays ⟨List.take_prefix _ _, fun _ => ?_⟩ (fun _ => rfl) _⟩
              rw [all, List.take_length]
          · rw [next_sent_short ready [] last, List.nil_append]
            have below : 2 * count < conn.writeIdx := by omega
            have part : count ≠ (conn.response file).length := by omega
            simp only [part, below, false_or, true_and, idle]
            exact throughout_underway_iff ready positive (by omega)
              (fun count member => (offered count (List.mem_cons_of_mem _ member)).1) _ _

/-- The answer for a page that does not exist. -/
def notFoundConn : HttpConn := (idleConn.processWrite .noResource).1

/-- It takes one attempt in vain and then goes out at once. -/
theorem deliversInOrder_iff_notFoundConn :
    DeliversInOrder notFoundConn [] [.again, .sent (notFoundConn.response []).length] ↔
      AllAtOnce notFoundConn [] [.again, .sent (notFoundConn.response []).length] :=
  deliversInOrder_iff [] _ rfl (Prod.ext rfl (by decide +kernel : _ = true)) (by
    intro count member
    obtain rfl : count = (notFoundConn.response []).length := by simpa using member
    decide +kernel)

/-- After one half of the answer `write` completes. -/
theorem delivery_stopsShort : ¬ DeliversInOrder notFoundConn [] [.sent 60] := by
  intro inOrder
  have delivered := throughout_iff.mp inOrder [.sent 60] List.prefix_rfl
  have whole := delivered.2 (by decide +kernel)
  exact absurd whole (by decide +kernel)

end HPLinuxServer.Http
