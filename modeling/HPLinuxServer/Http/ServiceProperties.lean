import HPLinuxServer.Http.Service

/-!
# What a client gets, and when

Two deliveries decide a session. Bytes without a line end are answered as a request line,
and the connection is closed. Bytes with a CRLF are not answered, and after the next delivery
their first line is refused or keeps a thread busy for ever, like one with another line end.
-/

set_option autoImplicit false

namespace HPLinuxServer.Http

open Memory Refinement

namespace HttpConn

variable {conn : HttpConn}

/-! ## A bad request line is found first -/

/-- What `parse_line` leaves alone. -/
def attitude (conn : HttpConn) : Bool × CheckState := (conn.linger, conn.checkState)

theorem attitude_storeRead (conn : HttpConn) (index : Int) (byte : UInt8) :
    (conn.storeRead index byte).attitude = conn.attitude := by
  unfold storeRead
  split <;> rfl

theorem attitude_passed (conn : HttpConn) (checkedIdx : Nat) :
    { conn with checkedIdx }.attitude = conn.attitude := rfl

theorem attitude_endLine : conn.endLine.attitude = conn.attitude := by
  unfold endLine
  dsimp only
  rw [attitude_passed, attitude_storeRead, attitude_storeRead]

theorem attitude_parseLineLoop (rounds : Nat) :
    Yields (conn.parseLineLoop rounds) fun value => value.1.attitude = conn.attitude := by
  induction rounds generalizing conn with
  | zero => exact .ok rfl
  | succ rounds ih =>
      unfold parseLineLoop
      refine .bind_any fun temp => .ite (fun _ => ?_) fun _ => ?_
      · refine .ite (fun _ => .pure rfl) fun _ => .bind_any fun behind => ?_
        exact .ite (fun _ => .pure attitude_endLine) fun _ => .pure rfl
      · refine .ite (fun _ => ?_) fun _ => ih
        refine .bind_any fun before => ?_
        exact .ite (fun _ => .pure attitude_endLine) fun _ => .pure rfl

theorem attitude_goesOn (lineStatus : LineStatus) :
    Yields (conn.goesOn lineStatus) fun value => value.1.attitude = conn.attitude := by
  unfold goesOn
  refine .ite (fun _ => .ok rfl) fun _ => ?_
  exact .bind (attitude_parseLineLoop _) fun _ same => .pure same

/-- The line is refused, or the header is next; either way nothing is known of `Connection`. -/
def LineRead (conn : HttpConn) (value : HttpConn × HttpCode) : Prop :=
  value.1.linger = conn.linger ∧ (value.2 = .badRequest ∨ value.1.checkState = .header)

theorem slash_read {moved : HttpConn} (same : moved.linger = conn.linger) :
    Yields (match moved.url with
      | none => pure (moved, HttpCode.badRequest)
      | some url => do
          if (← moved.readBuf.load url) ≠ 47 then return (moved, .badRequest)
          else return ({ moved with checkState := .header }, .noRequest)) conn.LineRead := by
  split
  · exact .pure ⟨same, .inl rfl⟩
  · refine .bind_any fun first => ?_
    exact .ite (fun _ => .pure ⟨same, .inl rfl⟩) fun _ => .pure ⟨same, .inr rfl⟩

theorem checkUrl_read (url : Nat) : Yields (conn.checkUrl url) conn.LineRead := by
  unfold checkUrl
  dsimp only
  refine .bind_any fun text => .ite (fun _ => ?_) fun _ => ?_
  · exact .bind_any fun behind => slash_read rfl
  · exact slash_read rfl

theorem linger_storeRead (conn : HttpConn) (index : Int) (byte : UInt8) :
    (conn.storeRead index byte).linger = conn.linger :=
  congrArg Prod.fst (attitude_storeRead conn index byte)

theorem parseUrl_read (url : Nat) : Yields (conn.parseUrl url) conn.LineRead := by
  unfold parseUrl
  refine .bind_any fun text => .bind_any fun rest => ?_
  split
  · exact .pure ⟨rfl, .inl rfl⟩
  · next gap _ =>
      have stored := linger_storeRead { conn with url := some (url + strspn text blanks) }
        (url + strspn text blanks + gap : Nat) 0
      refine .bind_any fun version => .bind_any fun protocol => .ite (fun _ => ?_) fun _ => ?_
      · refine .pure ⟨?_, .inl rfl⟩
        dsimp only
        exact stored
      · refine (checkUrl_read _).mono fun _ read => ⟨read.1.trans ?_, read.2⟩
        dsimp only
        exact stored

theorem parseRequestLine_read (text : Nat) : Yields (conn.parseRequestLine text) conn.LineRead := by
  unfold parseRequestLine
  refine .bind_any fun line => ?_
  split
  · exact .pure ⟨rfl, .inl rfl⟩
  · next gap _ =>
      have stored := conn.linger_storeRead (text + gap : Nat) 0
      refine .bind_any fun method => .ite (fun _ => .pure ⟨?_, .inl rfl⟩) fun _ => ?_
      · dsimp only
        exact stored
      refine (parseUrl_read _).mono fun _ read => ⟨read.1.trans ?_, read.2⟩
      dsimp only
      exact stored

/-- A header is never refused, and no request line follows it. -/
theorem parseHeaders_accepts (text : Nat) (state : conn.checkState ≠ .requestLine) :
    Yields (conn.parseHeaders text) fun value =>
      value.2 ≠ .badRequest ∧ value.1.checkState ≠ .requestLine := by
  have waits : HttpCode.noRequest ≠ .badRequest := nofun
  have asks : HttpCode.getRequest ≠ .badRequest := nofun
  unfold parseHeaders
  refine .bind_any fun line => .ite (fun _ => ?_) fun _ => .ite (fun _ => ?_) fun _ =>
    .ite (fun _ => ?_) fun _ => .ite (fun _ => ?_) fun _ => ?_
  · exact .ite (fun _ => .pure ⟨waits, nofun⟩) fun _ => .pure ⟨asks, state⟩
  · exact .ite (fun _ => .pure ⟨waits, state⟩) fun _ => .pure ⟨waits, state⟩
  · exact .pure ⟨waits, state⟩
  · exact .pure ⟨waits, state⟩
  · exact .pure ⟨waits, state⟩

theorem attitude_parseContent (text : Nat) :
    Yields (conn.parseContent text) fun value => value.1.attitude = conn.attitude := by
  unfold parseContent
  refine .bind_any fun behind => .ite (fun _ => .pure ?_) fun _ => .pure rfl
  exact attitude_storeRead ..

/-- A round that does not read the request line. -/
theorem handleLine_accepts (lineStatus : LineStatus) (state : conn.checkState ≠ .requestLine) :
    Yields (conn.handleLine lineStatus) fun value =>
      value.2 ≠ .leave (.code .badRequest) ∧ value.1.checkState ≠ .requestLine := by
  unfold handleLine
  dsimp only
  split
  · next requestLine => exact absurd requestLine state
  · refine .bind (parseHeaders_accepts _ state) fun parsed accepted => .ite (fun bad => ?_) fun _ => ?_
    · exact absurd bad accepted.1
    · exact .ite (fun _ => .pure ⟨nofun, accepted.2⟩) fun _ => .pure ⟨nofun, accepted.2⟩
  · refine .bind (attitude_parseContent _) fun parsed same => ?_
    have later : parsed.1.checkState ≠ .requestLine := by
      rw [show parsed.1.checkState = conn.checkState from congrArg Prod.snd same]
      exact state
    exact .ite (fun _ => .pure ⟨nofun, later⟩) fun _ => .pure ⟨nofun, later⟩

/-- The round that reads the request line. -/
theorem handleLine_reads (lineStatus : LineStatus) (state : conn.checkState = .requestLine) :
    Yields (conn.handleLine lineStatus) fun value => value.1.linger = conn.linger ∧
      ∀ status, value.2 = .next status → value.1.checkState = .header := by
  have here : conn.nextLine.checkState = .requestLine := state
  unfold handleLine
  dsimp only
  rw [here]
  dsimp only
  refine .bind (parseRequestLine_read _) fun parsed read => .ite (fun _ => ?_) fun good => ?_
  · exact .pure ⟨read.1, nofun⟩
  · exact .pure ⟨read.1, fun _ _ => read.2.resolve_left good⟩

theorem processReadLoop_accepts (lineStatus : LineStatus) (fuel : Nat)
    (state : conn.checkState ≠ .requestLine) :
    Yields (conn.processReadLoop lineStatus fuel) fun value => value.2 ≠ .code .badRequest := by
  induction fuel generalizing conn lineStatus with
  | zero => exact .error _
  | succ fuel ih =>
      unfold processReadLoop
      refine .bind (attitude_goesOn lineStatus) fun guarded same => .ite (fun _ => ?_) fun _ => ?_
      · have guardedState : guarded.1.checkState ≠ .requestLine := by
          rw [show guarded.1.checkState = conn.checkState from congrArg Prod.snd same]
          exact state
        refine .bind (handleLine_accepts lineStatus guardedState) fun handled accepted => ?_
        obtain ⟨handled, roundEnd⟩ := handled
        cases roundEnd with
        | leave exit => exact .pure fun bad => accepted.1 (congrArg RoundEnd.leave bad)
        | next status => exact ih status accepted.2
      · refine .pure fun bad => ?_
        cases bad

/-- The page for a bad request never says that the connection is kept. -/
theorem processReadLoop_refuses (lineStatus : LineStatus) (fuel : Nat) :
    Yields (conn.processReadLoop lineStatus fuel) fun value =>
      value.2 = .code .badRequest → value.1.linger = conn.linger := by
  rcases Decidable.em (conn.checkState = .requestLine) with state | state
  · cases fuel with
    | zero => exact .error _
    | succ fuel =>
        unfold processReadLoop
        refine .bind (attitude_goesOn lineStatus) fun guarded same => .ite (fun _ => ?_) fun _ => ?_
        · have linger : guarded.1.linger = conn.linger := congrArg Prod.fst same
          have guardedState : guarded.1.checkState = .requestLine :=
            (congrArg Prod.snd same).trans state
          refine .bind (handleLine_reads lineStatus guardedState) fun handled read => ?_
          obtain ⟨handled, roundEnd⟩ := handled
          cases roundEnd with
          | leave exit => exact .pure fun _ => read.1.trans linger
          | next status =>
              refine (processReadLoop_accepts status fuel ?_).mono fun _ accepted bad =>
                absurd bad accepted
              rw [read.2 status rfl]
              intro same
              cases same
        · refine .pure fun bad => ?_
          cases bad
  · exact (processReadLoop_accepts lineStatus fuel state).mono fun _ accepted bad =>
      absurd bad accepted

/-! ## `m_linger` while the answer is put together -/

theorem linger_addResponse (conn : HttpConn) (formatted : Text) :
    (conn.addResponse formatted).1.linger = conn.linger := by
  unfold addResponse
  split
  · rfl
  · dsimp only
    split <;> rfl

theorem linger_added {formatted : Text} {moved : HttpConn} {whole : Bool}
    (added : conn.addResponse formatted = (moved, whole)) : moved.linger = conn.linger := by
  have same := conn.linger_addResponse formatted
  rwa [added] at same

theorem linger_addHeaders (conn : HttpConn) (contentLen : Int) :
    (conn.addHeaders contentLen).1.linger = conn.linger := by
  unfold addHeaders
  split
  · next added => exact linger_added added
  · next added =>
      split
      · next linger => exact (linger_added linger).trans (linger_added added)
      · next linger =>
          exact (linger_addResponse _ _).trans ((linger_added linger).trans (linger_added added))

theorem linger_addForm (conn : HttpConn) (status : Int) (title form : Text) :
    (conn.addForm status title form).1.linger = conn.linger := by
  unfold addForm
  dsimp only
  exact (linger_addResponse _ _).trans
    ((linger_addHeaders _ _).trans (linger_addResponse _ _))

theorem linger_ivHeader (result : HttpConn × Bool) :
    (ivHeader result).1.linger = result.1.linger := by
  unfold ivHeader
  split <;> rfl

theorem linger_processWrite (conn : HttpConn) (ret : HttpCode) :
    (conn.processWrite ret).1.linger = conn.linger := by
  have form : ∀ status title text,
      (ivHeader (conn.addForm status title text)).1.linger = conn.linger :=
    fun status title text => (linger_ivHeader _).trans (conn.linger_addForm status title text)
  cases ret with
  | internalError => exact form _ _ _
  | badRequest => exact form _ _ _
  | noResource => exact form _ _ _
  | forbiddenRequest => exact form _ _ _
  | fileRequest =>
      have started := conn.linger_addResponse
        (ascii "HTTP/1.1 " ++ decimal 200 ++ ascii " " ++ ok200Title ++ ascii "\r\n")
      unfold processWrite addStatusLine
      dsimp only
      split
      · exact (linger_addHeaders _ _).trans started
      · exact (linger_addResponse _ _).trans ((linger_addHeaders _ _).trans started)
  | noRequest => rfl
  | getRequest => rfl
  | closeConnection => rfl

/-! ## The answer -/

variable {site : Site} {sockfd : Int} {file : List UInt8}

theorem length_gather_le (conn : HttpConn) (file : List UInt8) (iv : List IoVec) :
    (conn.gather file iv).length ≤ { conn with iv }.ivLength := by
  unfold gather ivLength
  induction iv with
  | nil => exact Nat.le_refl _
  | cons entry iv ih =>
      rw [List.flatMap_cons, List.length_append, List.map_cons, List.sum_cons]
      refine Nat.add_le_add ?_ ih
      cases entry with
      | writeBuf length => exact List.length_take_le _ _
      | file address length => exact List.length_take_le _ _

/-- A `write` that can send everything ends the connection, unless it is to be kept. -/
theorem write_whole (ready : conn.Ready) (close : conn.linger = false) (file : List UInt8) :
    ∃ after sent, conn.write [.sent conn.ivLength] = (after, sent, .returned false) ∧
      Delivery.taken conn file sent = conn.gather file conn.iv := by
  have length : conn.writeIdx ≤ conn.ivLength := by
    unfold ivLength
    rcases ready.described with header | both
    · rw [header]
      exact Nat.le_refl _
    · rw [both]
      exact Nat.le_add_right _ _
  have last : (conn.writeIdx : Int) - conn.ivLength ≤ 0 + conn.ivLength := by omega
  have whole : (conn.gather file conn.iv).take conn.ivLength = conn.gather file conn.iv :=
    List.take_of_length_le (conn.length_gather_le file conn.iv)
  refine ⟨conn.unmap.1, .sent conn.iv conn.ivLength :: conn.unmap.2 ++
    [.epollMod conn.sockfd .input], ?_, ?_⟩
  · unfold write
    rw [Delivery.writeBegin_ready ready]
    simp only [writeLoop, writeRound, if_pos last, close, Bool.false_eq_true, if_false]
  · unfold Delivery.taken unmap
    cases conn.fileAddress with
    | none => simp [whole]
    | some address => simp [whole]

theorem mapped_processWrite (site : Site) (conn : HttpConn) (ret : HttpCode) :
    (conn.processWrite ret).1.mapped site = conn.mapped site := by
  unfold mapped
  rw [show (conn.processWrite ret).1.fileAddress = conn.fileAddress from
    congrArg (fun held => held.1.2.1) (conn.lasting_processWrite ret)]

section

variable {piece : Text} {fuel : Nat} {received parsed built : HttpConn} {ret : HttpCode}

/-- The delivery brings this answer, and the connection is closed. -/
def Answers (site : Site) (fuel : Nat) (conn : HttpConn) (piece bytes : Text) : Prop :=
  ∃ after, conn.deliver site fuel piece = .ok (after, ⟨bytes, false⟩)

/-- A response that `process_write` accepts comes back. -/
theorem answers_written (read : conn.read [.data piece] = (received, true))
    (returned : received.processRead site.files fuel = .ok (parsed, ret))
    (answer : ret ≠ .noRequest) (empty : parsed.writeIdx = 0) (close : parsed.linger = false)
    (written : parsed.processWrite ret = (built, true)) :
    conn.Answers site fuel piece (built.gather (parsed.mapped site) built.iv) := by
  have processed : received.process site.files fuel =
      .ok (built, [.epollMod built.sockfd .output]) := by
    unfold process
    rw [returned, ok_bind]
    dsimp only
    rw [if_neg answer, written]
    rfl
  have file : built.mapped site = parsed.mapped site := by
    rw [← mapped_processWrite site parsed ret, written]
  have kept : built.linger = false := by
    rw [← close, ← linger_processWrite parsed ret, written]
  obtain ⟨after, sent, wrote, taken⟩ :=
    write_whole (processWrite_ready empty written) kept (parsed.mapped site)
  refine ⟨after, ?_⟩
  unfold deliver
  rw [read]
  dsimp only
  rw [processed, ok_bind]
  unfold respond
  rw [if_neg (by simp), if_neg (by simp), wrote]
  dsimp only
  rw [file, taken]
  rfl

theorem body_error (answers : ret.Answers) (error : ret ≠ .fileRequest) (file : List UInt8) :
    ret.body file = ret.body [] := by
  cases ret with
  | noRequest => cases answers
  | getRequest => cases answers
  | closeConnection => cases answers
  | fileRequest => exact absurd rfl error
  | badRequest => rfl
  | noResource => rfl
  | forbiddenRequest => rfl
  | internalError => rfl

theorem answers_page (read : conn.read [.data piece] = (received, true))
    (returned : received.processRead site.files fuel = .ok (parsed, ret)) (answers : ret.Answers)
    (error : ret ≠ .fileRequest) (empty : parsed.writeIdx = 0) (close : parsed.linger = false) :
    conn.Answers site fuel piece (page ret) := by
  have answer : ret ≠ .noRequest := by
    rintro rfl
    exact answers
  obtain ⟨built, written, bytes⟩ := processWrite_framesForm empty answers (parsed.mapped site) error
  have wrote := answers_written read returned answer empty close written
  rw [bytes, close, body_error answers error] at wrote
  exact wrote

end

/-! ## Before the request line is read -/

/-- A connection that has not come to its request line. -/
structure Awaiting (conn : HttpConn) : Prop where
  parsing : conn.Parsing
  state : conn.checkState = .requestLine
  valid : 0 ≤ conn.sockfd
  empty : conn.writeIdx = 0
  name : conn.NameEnds
  linger : conn.linger = false

namespace Awaiting

variable {line : Text}

theorem notContent (awaiting : conn.Awaiting) : conn.checkState ≠ .content := by
  rw [awaiting.state]
  decide

/-- What is kept until the response. -/
theorem kept (awaiting : conn.Awaiting) {parsed : HttpConn} {exit : ReadExit}
    (ends : conn.LoopEnds (parsed, exit)) :
    parsed.sockfd = conn.sockfd ∧ parsed.writeIdx = 0 ∧ parsed.NameEnds := by
  obtain ⟨fuel, done⟩ := ends
  have same := keeps_processReadLoop .lineOk fuel (parsed, exit) done
  have empty : parsed.writeIdx = conn.writeIdx := congrArg (fun held => held.2.2.2.1) same
  exact ⟨congrArg (fun held => held.1.1) same, empty.trans awaiting.empty,
    awaiting.name.of_realFile (congrArg (fun held => held.2.2.2.2.1) same)⟩

theorem waits (awaiting : conn.Awaiting) (proper : crlf <+: conn.lineEnd) (fuel : Nat) :
    conn.processReadLoop .lineOk (fuel + 1) = .ok (conn.stopped.endLine, .code .noRequest) := by
  rcases awaiting.parsing.parseLine_stops with ⟨-, parsed⟩ | ⟨improper, -⟩
  · exact processReadLoop_leaves awaiting.notContent parsed fuel
  · exact absurd proper improper

/-- No line end that is accepted, and no request line. -/
theorem refuses (awaiting : conn.Awaiting) (improper : ¬ crlf <+: conn.lineEnd)
    (holds : conn.readBuf.Holds conn.startLine line) (refused : ¬ ∃ path, RequestLineOf line path) :
    ∃ parsed, conn.LoopEnds (parsed, .code .badRequest) := by
  have entered := awaiting.parsing.round_stopped awaiting.notContent improper
  have text : conn.stopped.nextLine.readBuf.Holds conn.startLine line := holds
  rcases requestLine_cases text with ⟨path, -, -, asks, -⟩ | ⟨-, parsed, rejected, -, -⟩
  · exact absurd ⟨path, asks⟩ refused
  · have handled : conn.stopped.handleLine .lineOk = .ok (parsed, .leave (.code .badRequest)) :=
      handleLine_requestLine conn.stopped awaiting.state rejected
    refine ⟨parsed, 1, ?_⟩
    rw [processReadLoop_round, entered, handled]
    rfl

/-- A request line, but a line end that is not accepted. -/
theorem spins (awaiting : conn.Awaiting) {byte : UInt8} {rest : Text}
    (standing : conn.lineEnd = byte :: rest) (ends : EndsLine byte)
    (improper : ¬ crlf <+: conn.lineEnd) (holds : conn.readBuf.Holds conn.startLine line)
    (asks : ∃ path, RequestLineOf line path) (fuel : Nat) :
    conn.processReadLoop .lineOk fuel = .error .outOfFuel := by
  have parsing := awaiting.parsing
  have never : ¬ conn.LoopReturns .lineOk := by
    rw [requestLine_returns_iff parsing awaiting.state improper holds]
    rintro (noEnd | refused)
    · rw [noEnd] at standing
      cases standing
    · exact refused asks
  obtain ⟨front, ahead, plain, place⟩ := parsing.walk
  have walked : conn.parseLine = conn.stopped.parseLineLoop (rest.length + 1) := by
    unfold HttpConn.stopped
    rw [place]
    rw [standing] at ahead
    exact (received_pending (Nat.le_of_lt parsing.read)).parseLine_skip ahead plain
  have stoppedState : conn.stopped.checkState = .requestLine := awaiting.state
  rcases requestLine_halts awaiting.state stoppedState walked
    (parsing.halts standing ends improper) (Nat.le_trans parsing.started parsing.checked)
    parsing.nul with ⟨parsed, enough, bad⟩ | spins
  · exact absurd ⟨enough, _, bad⟩ never
  · exact spins fuel

/-- A request line and nothing behind it is taken for a whole request. -/
theorem reaches (awaiting : conn.Awaiting) (noEnd : conn.lineEnd = [])
    (holds : conn.readBuf.Holds conn.startLine line) {path : Text} (asks : RequestLineOf line path) :
    ∃ parsed, conn.LoopEnds (parsed, .doRequest) ∧ parsed.urlText = .ok path ∧ 0 ∉ path ∧
      parsed.linger = false := by
  have improper : ¬ crlf <+: conn.lineEnd := by
    rw [noEnd]
    decide
  have entered := awaiting.parsing.round_stopped awaiting.notContent improper
  have text : conn.stopped.nextLine.readBuf.Holds conn.startLine line := holds
  obtain ⟨parsed, url, done, frame, state, pointer, urlHolds⟩ := requestLineOf_accepted text asks
  have handled : conn.stopped.handleLine .lineOk = .ok (parsed, .next .lineOk) :=
    handleLine_requestLine conn.stopped awaiting.state done
  have behind : parsed.Parsing := awaiting.parsing.stopped.nextLine.parseRequestLine awaiting.state
    (Nat.le_trans awaiting.parsing.started awaiting.parsing.checked) _ done
  have place : conn.endIdx = conn.readIdx := by
    unfold endIdx
    rw [noEnd]
    rfl
  have startLine : parsed.startLine = parsed.readIdx := by rw [frame.others]; exact place
  have checkedIdx : parsed.checkedIdx = parsed.readIdx := by rw [frame.others]; exact place
  have length : parsed.contentLength = 0 := by
    rw [frame.others]
    exact awaiting.parsing.length awaiting.state
  have linger : parsed.linger = conn.linger := by rw [frame.others]; rfl
  -- behind the line there is nothing to parse, and then an empty header
  have nothing : parsed.parseLine = .ok (parsed, .lineOpen) := by
    unfold parseLine
    rw [checkedIdx, Nat.sub_self]
    rfl
  have empty : parsed.nextLine.readBuf.text parsed.startLine = .ok [] := by
    rw [startLine]
    exact (Buffer.holds_nil behind.nul).text_eq
  have ended : parsed.nextLine.parseHeaders parsed.startLine = .ok (parsed.nextLine, .getRequest) := by
    have noBody : parsed.nextLine.contentLength = 0 := length
    unfold parseHeaders
    simp only [empty, ok_bind, if_true, noBody]
    rfl
  have second := processReadLoop_enters (by rw [state]; decide) nothing (by decide) 0
  rw [handleLine_header state ended] at second
  refine ⟨parsed.nextLine, ⟨2, ?_⟩, ?_, urlHolds.1, linger.trans awaiting.linger⟩
  · rw [processReadLoop_round, entered, handled]
    exact second
  · have pointer' : parsed.nextLine.url = some url := pointer
    unfold urlText
    rw [pointer']
    exact urlHolds.text_eq

end Awaiting

/-! ## One delivery -/

section

variable {piece line : Text} {received : HttpConn}

/-- A page for a bad request, found in whatever bytes. -/
theorem answers_bad (read : conn.read [.data piece] = (received, true))
    (awaiting : received.Awaiting) {parsed : HttpConn}
    (bad : received.LoopEnds (parsed, .code .badRequest)) :
    ∃ enough, ∀ fuel, enough ≤ fuel → conn.Answers site fuel piece (page .badRequest) := by
  obtain ⟨-, empty, -⟩ := awaiting.kept bad
  obtain ⟨enough, done⟩ := bad
  have linger : parsed.linger = false :=
    (processReadLoop_refuses .lineOk enough (parsed, .code .badRequest) done rfl).trans awaiting.linger
  refine ⟨enough, fun fuel more => ?_⟩
  have returned : received.processRead site.files fuel = .ok (parsed, .badRequest) := by
    unfold processRead
    rw [processReadLoop_mono done more]
    rfl
  exact answers_page read returned trivial nofun empty linger

theorem answers_refused (read : conn.read [.data piece] = (received, true))
    (awaiting : received.Awaiting) (improper : ¬ crlf <+: received.lineEnd)
    (holds : received.readBuf.Holds received.startLine line) (asks : Asks line none) :
    ∃ enough, ∀ fuel, enough ≤ fuel → conn.Answers site fuel piece (page .badRequest) := by
  obtain ⟨parsed, bad⟩ := awaiting.refuses improper holds asks
  exact answers_bad read awaiting bad

/-- There is no answer if the lines are never done. -/
theorem deliver_spins (read : conn.read [.data piece] = (received, true)) {fuel : Nat}
    (spins : received.processReadLoop .lineOk fuel = .error .outOfFuel) :
    conn.deliver site fuel piece = .error .outOfFuel := by
  unfold deliver
  rw [read]
  dsimp only
  unfold process processRead
  rw [spins]
  rfl

end

/-! ## What a session comes to -/

section

variable {piece bytes : Text} {later : List Text}

theorem comes_answered
    (answers : ∃ enough, ∀ fuel, enough ≤ fuel → conn.Answers site fuel piece bytes) :
    conn.Comes site (piece :: later) (some ⟨bytes, false⟩) := by
  obtain ⟨enough, answers⟩ := answers
  refine ⟨enough, fun fuel more => ?_⟩
  obtain ⟨after, delivered⟩ := answers fuel more
  unfold session
  rw [delivered]
  rfl

theorem comes_spinning (spins : ∀ fuel, conn.deliver site fuel piece = .error .outOfFuel) :
    conn.Comes site (piece :: later) none := by
  intro fuel
  unfold session
  rw [spins fuel]
  rfl

theorem Comes.unique {pieces : List Text} {verdict verdict' : Option Reply}
    (comes : conn.Comes site pieces verdict) (comes' : conn.Comes site pieces verdict') :
    verdict = verdict' := by
  cases verdict with
  | none =>
      cases verdict' with
      | none => rfl
      | some reply =>
          obtain ⟨enough, comes'⟩ := comes'
          exact nomatch (comes enough).symm.trans (comes' enough (Nat.le_refl _))
  | some reply =>
      obtain ⟨enough, comes⟩ := comes
      cases verdict' with
      | none => exact nomatch (comes enough (Nat.le_refl _)).symm.trans (comes' enough)
      | some reply' =>
          obtain ⟨enough', comes'⟩ := comes'
          have first := comes _ (Nat.le_max_left enough enough')
          have second := comes' _ (Nat.le_max_right enough enough')
          exact congrArg some (Except.ok.inj (first.symm.trans second))

end

/-! ## The first two deliveries -/

section

variable {first front rest piece : Text}

theorem lineEnd_standing (conn : HttpConn) {byte : UInt8} (ahead : conn.pending = front ++ byte :: rest)
    (plain : OneLine front) (ends : EndsLine byte) : conn.lineEnd = byte :: rest := by
  unfold lineEnd
  rw [ahead, dropWhile_plain plain]
  rcases ends with rfl | rfl
  · rfl
  · rfl

/-- The first CRLF has been passed over: the LF is left, and the line is a byte short. -/
structure Passed (conn : HttpConn) (line : Text) : Prop where
  reachable : conn.Reachable
  awaiting : conn.Awaiting
  halts : conn.Halts lineFeed
  holds : conn.readBuf.Holds conn.startLine line
  behind : conn.startLine + line.length < conn.readIdx

theorem Passed.read (passed : conn.Passed front)
    (fits : conn.readIdx + piece.length < readBufferSize) :
    ∃ received tail, conn.read [.data piece] = (received, true) ∧ received.Awaiting ∧
      received.readBuf.Holds received.startLine front ∧ received.lineEnd = lineFeed :: tail := by
  have read := read_piece conn piece fits
  have next := passed.reachable.read [.data piece] (by rw [read]; exact fits)
  rw [read] at next
  have awaiting := passed.awaiting
  have inside := passed.halts.inside
  have here : (conn.readBuf.copyIn conn.readIdx piece).bytes[conn.checkedIdx]? = some lineFeed := by
    rw [Buffer.copyIn_bytes_other (Nat.le_of_lt fits) (.inl inside)]
    exact passed.halts.found
  have held := passed.holds.copyIn_behind passed.behind (Nat.le_of_lt fits)
  generalize isReceived : { conn with
    readBuf := conn.readBuf.copyIn conn.readIdx piece
    readIdx := conn.readIdx + piece.length } = received at read next
  have ahead : received.pending.head? = some lineFeed := by
    unfold pending
    rw [← isReceived, List.head?_drop]
    dsimp only
    rw [List.getElem?_take_of_lt (by omega)]
    exact here
  obtain ⟨tail, pending⟩ := List.head?_eq_some_iff.mp ahead
  refine ⟨received, tail, read, ⟨next.parsing, ?_, ?_, ?_, ?_, ?_⟩, ?_, ?_⟩
  · rw [← isReceived]
    exact awaiting.state
  · rw [← isReceived]
    exact awaiting.valid
  · rw [← isReceived]
    exact awaiting.empty
  · rw [← isReceived]
    exact awaiting.name
  · rw [← isReceived]
    exact awaiting.linger
  · rw [← isReceived]
    exact held
  · have plain : OneLine [] := by simp [OneLine]
    exact received.lineEnd_standing (by rw [pending, List.nil_append]) plain (.inr rfl)

end

end HttpConn

/-! ## The sessions -/

section

open HttpConn

variable {site : Site} {sockfd : Int} {pieces : List Text} {verdict : Option Reply}

theorem not_crlf_lineFeed (tail : Text) : ¬ crlf <+: lineFeed :: tail := by
  rintro ⟨more, same⟩
  exact absurd (List.cons.inj same).1 (by decide)

/-- A delivery behind a line that has been passed over. -/
theorem HttpConn.Passed.comes {waiting : HttpConn} {front second : Text} {later : List Text}
    (passed : waiting.Passed front) (fits : waiting.readIdx + second.length < readBufferSize) :
    (Asks front none →
      waiting.Comes site (second :: later) (some ⟨page .badRequest, false⟩)) ∧
    (∀ path, Asks front (some path) → waiting.Comes site (second :: later) none) := by
  obtain ⟨received, tail, read, awaiting, holds, standing⟩ := passed.read fits
  have improper : ¬ crlf <+: received.lineEnd := by
    rw [standing]
    exact not_crlf_lineFeed tail
  refine ⟨fun refused => comes_answered (answers_refused read awaiting improper holds refused),
    fun path asks => comes_spinning fun fuel => deliver_spins read ?_⟩
  exact awaiting.spins standing (.inr rfl) improper holds ⟨path, asks⟩ fuel

end

end HPLinuxServer.Http
