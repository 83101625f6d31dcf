import HPLinuxServer.Http.HttpResponse
import HPLinuxServer.Refinement.Yields

/-!
# What a connection holds

The socket and the mapped file of a connection, which reading and parsing its input and
putting together the answer leave alone: only `do_request` maps a file, only `unmap`
forgets one, and only `init` and `close_conn` change the socket.
-/

set_option autoImplicit false

namespace HPLinuxServer.Http

open Memory Refinement

namespace HttpConn

/-- The members that stand for something outside of the object. -/
def resources (conn : HttpConn) : Int × Ptr × FileStat :=
  (conn.sockfd, conn.fileAddress, conn.fileState)

/-- What stays while input is received and an answer is put together. -/
def lasting (conn : HttpConn) : (Int × Ptr × FileStat) × Buffer filenameLen :=
  (conn.resources, conn.realFile)

/-- The members that the parser does not write. -/
def unparsed (conn : HttpConn) :
    (Int × Ptr × FileStat) × Nat × Buffer writeBufferSize × Nat × Buffer filenameLen × List IoVec :=
  (conn.resources, conn.readIdx, conn.writeBuf, conn.writeIdx, conn.realFile, conn.iv)

variable {conn : HttpConn}

/-- The connection that a computation returns is the given one, but for what is parsed. -/
abbrev Keeps {α : Type} (conn : HttpConn) (result : Except Fault (HttpConn × α)) : Prop :=
  Yields result fun value => value.1.unparsed = conn.unparsed

theorem unparsed_storeRead (conn : HttpConn) (index : Int) (byte : UInt8) :
    (conn.storeRead index byte).unparsed = conn.unparsed := by
  unfold storeRead unparsed
  split <;> rfl

theorem unparsed_passed (conn : HttpConn) (checkedIdx : Nat) :
    { conn with checkedIdx }.unparsed = conn.unparsed := rfl

theorem unparsed_endLine : conn.endLine.unparsed = conn.unparsed := by
  unfold endLine
  dsimp only
  rw [unparsed_passed, unparsed_storeRead, unparsed_storeRead]

theorem keeps_parseLineLoop (rounds : Nat) : conn.Keeps (conn.parseLineLoop rounds) := by
  induction rounds generalizing conn with
  | zero => exact .ok rfl
  | succ rounds ih =>
      unfold parseLineLoop
      refine .bind_any fun temp => .ite (fun _ => ?_) fun _ => ?_
      · refine .ite (fun _ => .pure rfl) fun _ => .bind_any fun behind => ?_
        exact .ite (fun _ => .pure unparsed_endLine) fun _ => .pure rfl
      · refine .ite (fun _ => ?_) fun _ => ih
        refine .bind_any fun before => ?_
        exact .ite (fun _ => .pure unparsed_endLine) fun _ => .pure rfl

theorem keeps_slash {moved : HttpConn} (same : moved.unparsed = conn.unparsed) :
    conn.Keeps (match moved.url with
      | none => pure (moved, HttpCode.badRequest)
      | some url => do
          if (← moved.readBuf.load url) ≠ 47 then return (moved, .badRequest)
          else return ({ moved with checkState := .header }, .noRequest)) := by
  split
  · exact .pure same
  · refine .bind_any fun first => ?_
    exact .ite (fun _ => .pure same) fun _ => .pure same

theorem keeps_checkUrl (url : Nat) : conn.Keeps (conn.checkUrl url) := by
  unfold checkUrl
  dsimp only
  refine .bind_any fun text => .ite (fun _ => ?_) fun _ => ?_
  · refine .bind_any fun behind => ?_
    exact keeps_slash rfl
  · exact keeps_slash rfl

theorem keeps_parseUrl (url : Nat) : conn.Keeps (conn.parseUrl url) := by
  unfold parseUrl
  refine .bind_any fun text => .bind_any fun rest => ?_
  split
  · exact .pure rfl
  · next gap _ =>
      have stored := unparsed_storeRead { conn with url := some (url + strspn text blanks) }
        (url + strspn text blanks + gap : Nat) 0
      refine .bind_any fun version => .bind_any fun protocol => .ite (fun _ => .pure ?_) fun _ => ?_
      · dsimp only [unparsed, resources] at stored ⊢
        exact stored
      · refine (keeps_checkUrl _).mono fun _ same => same.trans ?_
        dsimp only [unparsed, resources] at stored ⊢
        exact stored

theorem keeps_parseRequestLine (text : Nat) : conn.Keeps (conn.parseRequestLine text) := by
  unfold parseRequestLine
  refine .bind_any fun line => ?_
  split
  · exact .pure rfl
  · next gap _ =>
      have stored := conn.unparsed_storeRead (text + gap : Nat) 0
      refine .bind_any fun method => .ite (fun _ => .pure ?_) fun _ => ?_
      · dsimp only [unparsed, resources] at stored ⊢
        exact stored
      · refine (keeps_parseUrl _).mono fun _ same => same.trans ?_
        dsimp only [unparsed, resources] at stored ⊢
        exact stored

theorem keeps_parseHeaders (text : Nat) : conn.Keeps (conn.parseHeaders text) := by
  unfold parseHeaders
  refine .bind_any fun line => .ite (fun _ => .ite (fun _ => .pure rfl) fun _ => .pure rfl) ?_
  refine fun _ => .ite (fun _ => .ite (fun _ => .pure rfl) fun _ => .pure rfl) ?_
  refine fun _ => .ite (fun _ => .pure rfl) fun _ => ?_
  exact .ite (fun _ => .pure rfl) fun _ => .pure rfl

theorem keeps_parseContent (text : Nat) : conn.Keeps (conn.parseContent text) := by
  unfold parseContent
  refine .bind_any fun behind => .ite (fun _ => .pure ?_) fun _ => .pure rfl
  exact unparsed_storeRead ..

theorem keeps_goesOn (lineStatus : LineStatus) : conn.Keeps (conn.goesOn lineStatus) := by
  unfold goesOn
  refine .ite (fun _ => .ok rfl) fun _ => ?_
  exact .bind (keeps_parseLineLoop _) fun _ same => .pure same

theorem keeps_handleLine (lineStatus : LineStatus) :
    conn.Keeps (conn.handleLine lineStatus) := by
  unfold handleLine
  dsimp only
  split
  · refine .bind (keeps_parseRequestLine _) fun parsed same => ?_
    exact .ite (fun _ => .pure same) fun _ => .pure same
  · refine .bind (keeps_parseHeaders _) fun parsed same => .ite (fun _ => .pure same) fun _ => ?_
    exact .ite (fun _ => .pure same) fun _ => .pure same
  · refine .bind (keeps_parseContent _) fun parsed same => ?_
    exact .ite (fun _ => .pure same) fun _ => .pure same

theorem keeps_processReadLoop (lineStatus : LineStatus) (fuel : Nat) :
    conn.Keeps (conn.processReadLoop lineStatus fuel) := by
  induction fuel generalizing conn lineStatus with
  | zero => exact .error _
  | succ fuel ih =>
      unfold processReadLoop
      refine .bind (keeps_goesOn lineStatus) fun guard same => .ite (fun _ => ?_) fun _ => .pure same
      refine .bind (keeps_handleLine lineStatus) fun handled again => ?_
      obtain ⟨handled, roundEnd⟩ := handled
      cases roundEnd with
      | leave exit => exact .pure (again.trans same)
      | next status => exact (ih status).mono fun _ later => later.trans (again.trans same)

theorem lasting_readLoop (results : List RecvResult) :
    (conn.readLoop results).1.lasting = conn.lasting := by
  induction results generalizing conn with
  | nil => rfl
  | cons result results ih =>
      unfold readLoop
      split
      · rfl
      · rfl
      · rfl
      · exact ih

theorem lasting_read (conn : HttpConn) (results : List RecvResult) :
    (conn.read results).1.lasting = conn.lasting := by
  unfold read
  split
  · rfl
  · exact lasting_readLoop results

theorem lasting_addResponse (conn : HttpConn) (formatted : Text) :
    (conn.addResponse formatted).1.lasting = conn.lasting := by
  unfold addResponse
  split
  · rfl
  · dsimp only
    split <;> rfl

theorem lasting_added {formatted : Text} {moved : HttpConn} {whole : Bool}
    (added : conn.addResponse formatted = (moved, whole)) : moved.lasting = conn.lasting := by
  have same := conn.lasting_addResponse formatted
  rwa [added] at same

theorem lasting_addHeaders (conn : HttpConn) (contentLen : Int) :
    (conn.addHeaders contentLen).1.lasting = conn.lasting := by
  unfold addHeaders
  split
  · next added => exact lasting_added added
  · next added =>
      split
      · next linger => exact (lasting_added linger).trans (lasting_added added)
      · next linger =>
          exact (lasting_addResponse _ _).trans
            ((lasting_added linger).trans (lasting_added added))

theorem lasting_addForm (conn : HttpConn) (status : Int) (title form : Text) :
    (conn.addForm status title form).1.lasting = conn.lasting := by
  unfold addForm
  dsimp only
  exact (lasting_addResponse _ _).trans
    ((lasting_addHeaders _ _).trans (lasting_addResponse _ _))

theorem lasting_ivHeader (result : HttpConn × Bool) :
    (ivHeader result).1.lasting = result.1.lasting := by
  unfold ivHeader
  split <;> rfl

theorem lasting_processWrite (conn : HttpConn) (ret : HttpCode) :
    (conn.processWrite ret).1.lasting = conn.lasting := by
  have form : ∀ status title text,
      (ivHeader (conn.addForm status title text)).1.lasting = conn.lasting :=
    fun status title text => (lasting_ivHeader _).trans (conn.lasting_addForm status title text)
  cases ret with
  | internalError => exact form _ _ _
  | badRequest => exact form _ _ _
  | noResource => exact form _ _ _
  | forbiddenRequest => exact form _ _ _
  | fileRequest =>
      have started := conn.lasting_addResponse
        (ascii "HTTP/1.1 " ++ decimal 200 ++ ascii " " ++ ok200Title ++ ascii "\r\n")
      unfold processWrite addStatusLine
      dsimp only
      split
      · exact (lasting_addHeaders _ _).trans started
      · exact (lasting_addResponse _ _).trans ((lasting_addHeaders _ _).trans started)
  | noRequest => rfl
  | getRequest => rfl
  | closeConnection => rfl

/-! ## Requests for a file -/

/-- The path that `do_request` looks for, if `process_read` gets there. -/
def requestedPath (fuel : Nat) (conn : HttpConn) : Except Fault (Option Text) := do
  let (conn, exit) ← conn.processReadLoop .lineOk fuel
  match exit with
  | .code _ => return none
  | .doRequest => do
      let url ← conn.urlText
      return some (← (conn.joinPath url).text 0)

/-- The file that `m_file_address` and `m_file_state` are about. -/
def file (conn : HttpConn) : Ptr × FileStat := (conn.fileAddress, conn.fileState)

/-- The members `file` after `do_request` has looked for `path`. -/
def lookedFor (files : FileSystem) (conn : HttpConn) : Option Text → Ptr × FileStat
  | none => conn.file
  | some path => (conn.openFile files path).1.file

theorem sockfd_openFile (files : FileSystem) (conn : HttpConn) (path : Text) :
    (conn.openFile files path).1.sockfd = conn.sockfd := by
  unfold openFile
  split
  · rfl
  · dsimp only
    split
    · rfl
    · split <;> rfl

theorem file_openFile_congr (files : FileSystem) {conn other : HttpConn} (path : Text)
    (same : conn.file = other.file) :
    (conn.openFile files path).1.file = (other.openFile files path).1.file := by
  unfold openFile
  split
  · exact same
  · have address := congrArg Prod.fst same
    dsimp only [file] at address ⊢
    split
    · rw [address]
    · split
      · rw [address]
      · rfl

theorem doRequest_of_path {files : FileSystem} {url path : Text} (atUrl : conn.urlText = .ok url)
    (atPath : (conn.joinPath url).text 0 = .ok path) :
    conn.doRequest files =
      .ok (openFile files { conn with realFile := conn.joinPath url } path) := by
  unfold doRequest
  rw [atUrl]
  dsimp only [ok_bind]
  rw [atPath]
  rfl

theorem processRead_of_requestedPath (files : FileSystem) {fuel : Nat} {path : Option Text}
    (requested : conn.requestedPath fuel = .ok path) :
    ∃ next code, conn.processRead files fuel = .ok (next, code) ∧ next.sockfd = conn.sockfd ∧
      next.file = conn.lookedFor files path := by
  obtain ⟨⟨parsed, exit⟩, looped, ended⟩ := bind_eq_ok_iff.mp requested
  have same : parsed.resources = conn.resources :=
    congrArg Prod.fst (keeps_processReadLoop _ _ _ looped)
  have sameFile : parsed.file = conn.file := congrArg Prod.snd same
  unfold processRead
  rw [looped]
  cases exit with
  | code code =>
      cases ended
      exact ⟨parsed, code, rfl, congrArg Prod.fst same, sameFile⟩
  | doRequest =>
      obtain ⟨url, atUrl, ended⟩ := bind_eq_ok_iff.mp ended
      obtain ⟨text, atPath, ended⟩ := bind_eq_ok_iff.mp ended
      cases ended
      exact ⟨_, _, doRequest_of_path atUrl atPath,
        (sockfd_openFile ..).trans (congrArg Prod.fst same),
        file_openFile_congr files text sameFile⟩

/-- A call of `process_read` that comes back has got through `requestedPath`. -/
theorem requestedPath_of_processRead {files : FileSystem} {fuel : Nat}
    {result : HttpConn × HttpCode} (returned : conn.processRead files fuel = .ok result) :
    ∃ path, conn.requestedPath fuel = .ok path := by
  obtain ⟨⟨parsed, exit⟩, looped, ended⟩ := bind_eq_ok_iff.mp returned
  unfold requestedPath
  rw [looped]
  cases exit with
  | code code => exact ⟨none, rfl⟩
  | doRequest =>
      obtain ⟨url, atUrl, ended⟩ := bind_eq_ok_iff.mp ended
      obtain ⟨text, atPath, ended⟩ := bind_eq_ok_iff.mp ended
      have found : (parsed.joinPath url).text 0 = .ok text := atPath
      refine ⟨some text, ?_⟩
      dsimp only [ok_bind]
      rw [atUrl]
      dsimp only [ok_bind]
      rw [found]
      rfl

theorem sockfd_processRead {files : FileSystem} {fuel : Nat} {next : HttpConn} {code : HttpCode}
    (read : conn.processRead files fuel = .ok (next, code)) : next.sockfd = conn.sockfd := by
  obtain ⟨path, requested⟩ := requestedPath_of_processRead read
  obtain ⟨other, otherCode, same, socket, -⟩ :=
    processRead_of_requestedPath files requested
  cases read.symm.trans same
  exact socket

/-! ## What `process` and `write` ask of the kernel -/

theorem sockfd_processWrite (conn : HttpConn) (ret : HttpCode) :
    (conn.processWrite ret).1.sockfd = conn.sockfd :=
  congrArg (fun held => held.1.1) (conn.lasting_processWrite ret)

theorem file_processWrite (conn : HttpConn) (ret : HttpCode) :
    (conn.processWrite ret).1.file = conn.file :=
  congrArg (fun held => held.1.2) (conn.lasting_processWrite ret)

theorem file_closeConn (conn : HttpConn) : conn.closeConn.1.file = conn.file := by
  unfold closeConn
  split <;> rfl

/-- What `process` does behind `process_read`, on its socket: it waits for more, sends the
answer, or closes the connection and goes on to wait with what that left. -/
inductive Processed (sockfd : Int) : Int → List Effect → Prop where
  | more : Processed sockfd sockfd [.epollMod sockfd .input]
  | answer : Processed sockfd sockfd [.epollMod sockfd .output]
  | refuse (isOpen : sockfd ≠ -1) :
      Processed sockfd (-1)
        [.epollDel sockfd, .close sockfd, .userCount (-1), .epollMod (-1) .output]

theorem processed_closeConn (conn : HttpConn) :
    Processed conn.sockfd conn.closeConn.1.sockfd
      (conn.closeConn.2 ++ [.epollMod conn.closeConn.1.sockfd .output]) := by
  unfold closeConn
  split
  · next isOpen => exact .refuse isOpen
  · exact .answer

theorem process_of_processRead {files : FileSystem} {fuel : Nat} {next : HttpConn}
    {code : HttpCode} (read : conn.processRead files fuel = .ok (next, code)) :
    ∃ final effects, conn.process files fuel = .ok (final, effects) ∧ final.file = next.file ∧
      Processed next.sockfd final.sockfd effects := by
  unfold process
  rw [read]
  dsimp only [ok_bind]
  have socket := next.sockfd_processWrite code
  have sameFile := next.file_processWrite code
  split
  · exact ⟨_, _, rfl, rfl, .more⟩
  · split
    · exact ⟨_, _, rfl, sameFile, socket ▸ .answer⟩
    · refine ⟨_, _, rfl, (file_closeConn _).trans sameFile, ?_⟩
      rw [← socket]
      exact processed_closeConn _

theorem process_of_requestedPath (files : FileSystem) {fuel : Nat} {path : Option Text}
    (requested : conn.requestedPath fuel = .ok path) :
    ∃ final effects, conn.process files fuel = .ok (final, effects) ∧
      final.file = conn.lookedFor files path ∧ Processed conn.sockfd final.sockfd effects := by
  obtain ⟨next, code, read, socket, looked⟩ :=
    processRead_of_requestedPath files requested
  obtain ⟨final, effects, processed, same, spec⟩ := process_of_processRead read
  exact ⟨final, effects, processed, same.trans looked, socket ▸ spec⟩

theorem sockfd_unmap (conn : HttpConn) : conn.unmap.1.sockfd = conn.sockfd := by
  unfold unmap
  split <;> rfl

end HttpConn

/-- The effect is a call for a descriptor, or on the count of the users. -/
def Effect.isCall : Effect → Bool
  | epollAdd _ => true
  | epollMod _ _ => true
  | epollDel _ => true
  | close _ => true
  | userCount _ => true
  | munmap _ _ => false
  | sent _ _ => false

namespace HttpConn

variable {conn : HttpConn}

theorem calls_unmap (conn : HttpConn) : conn.unmap.2.filter Effect.isCall = [] := by
  unfold unmap
  split <;> rfl

/-- What `write` does with its socket when it returns: it waits for an event again, fails,
or has sent everything on a connection that is not kept, for which it waits all the same. -/
inductive Wrote (sockfd : Int) : Bool → List Effect → Prop where
  | waits (interest : Interest) : Wrote sockfd true [.epollMod sockfd interest]
  | failed : Wrote sockfd false []
  | completed : Wrote sockfd false [.epollMod sockfd .input]

/-- A call of `write` that comes back with `value` leaves the socket and has `Wrote`. -/
def Writes (conn : HttpConn) (result : HttpConn × List Effect × WriteState) : Prop :=
  ∀ value, result.2.2 = .returned value →
    result.1.sockfd = conn.sockfd ∧ Wrote conn.sockfd value (result.2.1.filter Effect.isCall)

theorem writes_returned {final : HttpConn} {effects : List Effect} {value : Bool}
    (socket : final.sockfd = conn.sockfd)
    (wrote : Wrote conn.sockfd value (effects.filter Effect.isCall)) :
    conn.Writes (final, effects, .returned value) := by
  intro other returned
  cases returned
  exact ⟨socket, wrote⟩

/-- The calls of the end of `write`. -/
theorem calls_completed (conn : HttpConn) (count : Nat) (interest : Interest) :
    (Effect.sent conn.iv count :: conn.unmap.2 ++ [Effect.epollMod conn.sockfd interest]).filter
        Effect.isCall =
      [.epollMod conn.sockfd interest] := by
  rw [List.filter_append, List.filter_cons_of_neg Bool.false_ne_true, calls_unmap]
  rfl

theorem writes_writeLoop (bytesToSend bytesHaveSend : Int) (results : List WritevResult) :
    conn.Writes (conn.writeLoop bytesToSend bytesHaveSend results) := by
  induction results generalizing bytesToSend bytesHaveSend with
  | nil => exact fun _ returned => nomatch returned
  | cons result results ih =>
      cases result with
      | again => exact writes_returned rfl (.waits .output)
      | error =>
          have wrote : Wrote conn.sockfd false (conn.unmap.2.filter Effect.isCall) := by
            rw [calls_unmap]
            exact .failed
          exact writes_returned conn.sockfd_unmap wrote
      | sent count =>
          unfold writeLoop writeRound
          dsimp only
          by_cases enough : bytesToSend - count ≤ bytesHaveSend + count
          · have calls := conn.calls_completed count .input
            rw [if_pos enough]
            split
            · next kept =>
                split at kept
                · cases kept
                  exact writes_returned conn.sockfd_unmap (by rw [calls]; exact .waits .input)
                · cases kept
                  exact writes_returned conn.sockfd_unmap (by rw [calls]; exact .completed)
            · next looping => split at looping <;> cases looping
          · rw [if_neg enough]
            exact ih (bytesToSend - count) (bytesHaveSend + count)

theorem writes_write (conn : HttpConn) (results : List WritevResult) :
    conn.Writes (conn.write results) := by
  unfold write writeBegin
  by_cases empty : conn.writeIdx = 0
  · rw [if_pos empty]
    exact writes_returned rfl (.waits .input)
  · rw [if_neg empty]
    exact writes_writeLoop conn.writeIdx 0 results

end HttpConn

end HPLinuxServer.Http
