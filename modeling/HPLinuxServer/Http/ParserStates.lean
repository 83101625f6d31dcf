import HPLinuxServer.Http.RequestedFile

/-!
# The states of the parser

What holds of a connection between two calls of `process_read`, whatever has been received:
the indices are in order, nothing but NUL is behind the input, and the byte in front of
`m_checked_idx` is no CR.
-/

set_option autoImplicit false

namespace HPLinuxServer.Http

open Memory Refinement

/-- Some bytes have become NUL. -/
def Nulled {size : Nat} (before after : Buffer size) : Prop :=
  ∀ index : Nat, after.bytes[index]? = before.bytes[index]? ∨ after.bytes[index]? = some 0

namespace Nulled

variable {size : Nat} {before after : Buffer size}

theorem trans {middle : Buffer size} (first : Nulled before middle)
    (second : Nulled middle after) : Nulled before after := by
  intro index
  rcases second index with same | nul
  · rw [same]
    exact first index
  · exact .inr nul

theorem kept (nulled : Nulled before after) {index : Nat} (nul : before.bytes[index]? = some 0) :
    after.bytes[index]? = some 0 := by
  rcases nulled index with same | found
  · exact same.trans nul
  · exact found

theorem other (nulled : Nulled before after) {index : Nat} {byte : UInt8} (notNul : byte ≠ 0)
    (apart : before.bytes[index]? ≠ some byte) : after.bytes[index]? ≠ some byte := by
  intro found
  rcases nulled index with same | nul
  · exact apart (same.symm.trans found)
  · exact notNul (Option.some.inj (found.symm.trans nul))

theorem of_blanked (blanked : Blanked before after) : Nulled before after := by
  intro index
  rcases blanked index with same | ⟨-, nul⟩
  · exact .inl same
  · exact .inr nul

end Nulled

namespace HttpConn

variable {conn conn' : HttpConn}

theorem storeRead_nulled (conn : HttpConn) (target : Int) :
    Nulled conn.readBuf (conn.storeRead target 0).readBuf := by
  intro index
  unfold storeRead
  split
  · next inside =>
      rcases Nat.decEq target.toNat index with apart | same
      · exact .inl (Buffer.store_bytes_other apart 0)
      · right
        rw [← same]
        exact Buffer.store_bytes_self (by omega) 0
  · exact .inl rfl

theorem endLine_nulled (conn : HttpConn) : Nulled conn.readBuf conn.endLine.readBuf := by
  unfold endLine
  dsimp only
  exact (storeRead_nulled conn _).trans (storeRead_nulled _ _)

structure Parsing (conn : HttpConn) : Prop where
  started : conn.startLine ≤ conn.checkedIdx
  checked : conn.checkedIdx ≤ conn.readIdx
  read : conn.readIdx < readBufferSize
  unused : ∀ index, conn.readIdx ≤ index → index < readBufferSize →
    conn.readBuf.bytes[index]? = some 0
  passed : 0 < conn.checkedIdx → conn.readBuf.bytes[conn.checkedIdx - 1]? ≠ some carriageReturn
  length : conn.checkState = .requestLine → conn.contentLength = 0
  range : -2147483648 ≤ conn.contentLength ∧ conn.contentLength ≤ 2147483647
  url : conn.checkState ≠ .requestLine → ∃ url, conn.url = some url ∧ url ≤ conn.readIdx

namespace Parsing

theorem nul (parsing : conn.Parsing) : conn.readBuf.bytes[conn.readIdx]? = some 0 :=
  parsing.unused _ (Nat.le_refl _) parsing.read

theorem holds (parsing : conn.Parsing) {offset : Nat} (inside : offset ≤ conn.readIdx) :
    ∃ line, conn.readBuf.Holds offset line ∧ offset + line.length ≤ conn.readIdx := by
  obtain ⟨line, holds⟩ := Buffer.holds_of_nul inside parsing.nul
  exact ⟨line, holds, holds.end_le inside parsing.nul⟩

theorem line (parsing : conn.Parsing) :
    ∃ line, conn.readBuf.Holds conn.startLine line ∧ conn.startLine + line.length ≤ conn.readIdx :=
  parsing.holds (Nat.le_trans parsing.started parsing.checked)

/-- A change of the buffer that moves no index and stores nothing but NUL. -/
theorem cleared (parsing : conn.Parsing) {buffer : Buffer readBufferSize}
    (nulled : Nulled conn.readBuf buffer) : { conn with readBuf := buffer }.Parsing where
  started := parsing.started
  checked := parsing.checked
  read := parsing.read
  unused := fun index behind inside => nulled.kept (parsing.unused index behind inside)
  passed := fun positive => nulled.other (by decide) (parsing.passed positive)
  length := parsing.length
  range := parsing.range
  url := parsing.url

theorem storeRead (parsing : conn.Parsing) (target : Int) : (conn.storeRead target 0).Parsing := by
  have cleared := parsing.cleared (storeRead_nulled conn target)
  unfold HttpConn.storeRead at cleared ⊢
  split
  · next inside =>
      rw [if_pos inside] at cleared
      exact cleared
  · exact { parsing with }

theorem nextLine (parsing : conn.Parsing) : conn.nextLine.Parsing :=
  { parsing with started := Nat.le_refl _ }

/-- `m_checked_idx` passes a byte that is no CR. -/
theorem advance (parsing : conn.Parsing) (inside : conn.checkedIdx < conn.readIdx)
    (other : conn.readBuf.bytes[conn.checkedIdx]? ≠ some carriageReturn) :
    { conn with checkedIdx := conn.checkedIdx + 1 }.Parsing :=
  { parsing with
    started := Nat.le_succ_of_le parsing.started
    checked := inside
    passed := fun _ => other }

theorem endLine (parsing : conn.Parsing) (inside : conn.checkedIdx < conn.readIdx) :
    conn.endLine.Parsing := by
  have here := endLine_bytes_here conn (Nat.lt_trans inside parsing.read)
  have nulled := endLine_nulled conn
  rw [endLine_frame]
  generalize conn.endLine.readBuf = buffer at here nulled ⊢
  generalize conn.endLine.stray = stray
  have advanced := (parsing.cleared nulled).advance inside (by
    dsimp only
    rw [here]
    decide)
  exact { advanced with }

theorem parseLineLoop (parsing : conn.Parsing) {rounds : Nat}
    (inside : conn.checkedIdx + rounds ≤ conn.readIdx) :
    Yields (conn.parseLineLoop rounds) fun value => value.1.Parsing := by
  induction rounds generalizing conn with
  | zero => exact .ok parsing
  | succ rounds ih =>
      have here : conn.checkedIdx < conn.readIdx := by omega
      unfold HttpConn.parseLineLoop
      refine .bind_of_eq fun temp found => Yields.ite (fun _ => ?_) fun notReturn => ?_
      · refine .ite (fun _ => .pure parsing) fun _ => .bind_any fun behind => ?_
        exact .ite (fun _ => .pure (parsing.endLine here)) fun _ => .pure parsing
      · refine .ite (fun _ => ?_) fun _ => ?_
        · refine .bind_any fun before => ?_
          exact .ite (fun _ => .pure (parsing.endLine here)) fun _ => .pure parsing
        · refine ih (parsing.advance here fun isReturn => notReturn ?_) (by
            dsimp only
            omega)
          rw [Buffer.load_eq isReturn] at found
          exact (Except.ok.inj found).symm

theorem parseLine (parsing : conn.Parsing) :
    Yields conn.parseLine fun value => value.1.Parsing :=
  parsing.parseLineLoop (Nat.le_of_eq (Nat.add_sub_cancel' parsing.checked))

end Parsing

/-- A line is accepted, and the url stands in it, or it is not in the grammar. -/
theorem requestLine_cases {offset : Nat} {line : Text} (holds : conn.readBuf.Holds offset line) :
    (∃ path conn' url, RequestLineOf line path ∧
        conn.parseRequestLine offset = .ok (conn', .noRequest) ∧ conn.LineFrame conn' ∧
        conn'.checkState = .header ∧ conn'.url = some url ∧ url ≤ offset + line.length) ∨
      (¬ ∃ path, RequestLineOf line path) ∧
        ∃ conn', conn.parseRequestLine offset = .ok (conn', .badRequest) ∧ conn.LineFrame conn' ∧
          conn'.checkState = conn.checkState := by
  rcases Classical.em (∃ path, RequestLineOf line path) with ⟨path, grammar⟩ | noLine
  · left
    obtain ⟨conn', url, done, frame, state, pointer, -⟩ := requestLineOf_accepted holds grammar
    obtain ⟨words, -, -, -, named⟩ := requestLineOf_iff.mp grammar
    have started : path ≠ [] := by
      rintro rfl
      cases (urlPath_of_path named).head
    have inside := url_inside holds grammar done pointer started
    exact ⟨path, conn', url, grammar, done, frame, state, pointer, by omega⟩
  · right
    obtain ⟨conn', ret, done, frame, outcome⟩ := conn.parseRequestLine_spec holds
    rcases outcome with ⟨words, split, shaped, served, accepted⟩ | ⟨rejected, state⟩
    · obtain ⟨path, -, named, -, -⟩ := accepted.path
      exact absurd ⟨path, requestLineOf_iff.mpr ⟨words, split, shaped, served, named⟩⟩ noLine
    · exact ⟨noLine, conn', rejected ▸ done, frame, state⟩

namespace Parsing

theorem framed (parsing : conn.Parsing) (frame : conn.LineFrame conn')
    (length : conn.contentLength = 0)
    (url : conn'.checkState ≠ .requestLine → ∃ url, conn'.url = some url ∧ url ≤ conn.readIdx) :
    conn'.Parsing := by
  have cleared := parsing.cleared (.of_blanked frame.blanked)
  have others := frame.others
  generalize conn'.readBuf = buffer, conn'.checkState = state, conn'.url = pointer at *
  rw [others]
  exact { cleared with
    length := fun _ => length
    url := url }

theorem parseRequestLine (parsing : conn.Parsing) (state : conn.checkState = .requestLine)
    {offset : Nat} (inside : offset ≤ conn.readIdx) :
    Yields (conn.parseRequestLine offset) fun value => value.1.Parsing := by
  obtain ⟨line, holds, ends⟩ := parsing.holds inside
  have length := parsing.length state
  rcases requestLine_cases holds with
    ⟨-, conn', url, -, done, frame, -, pointer, bound⟩ | ⟨-, conn', done, frame, kept⟩
  · rw [done]
    exact .ok (parsing.framed frame length fun _ => ⟨url, pointer, Nat.le_trans bound ends⟩)
  · rw [done]
    exact .ok (parsing.framed frame length fun other => absurd (kept.trans state) other)

/-- Behind the request line the length of the body may become known. -/
theorem announced (parsing : conn.Parsing) (state : conn.checkState ≠ .requestLine) {length : Int}
    (range : -2147483648 ≤ length ∧ length ≤ 2147483647) :
    { conn with contentLength := length }.Parsing :=
  { parsing with
    length := fun other => absurd other state
    range := range }

theorem parseHeaders (parsing : conn.Parsing) (state : conn.checkState = .header) (offset : Nat) :
    Yields (conn.parseHeaders offset) fun value =>
      value.1.Parsing ∧ value.1.checkState ≠ .requestLine := by
  have notLine : conn.checkState ≠ .requestLine := by
    rw [state]
    decide
  have waits : conn.Parsing ∧ conn.checkState ≠ .requestLine := ⟨parsing, notLine⟩
  unfold HttpConn.parseHeaders
  refine .bind_any fun line => .ite (fun _ => .ite (fun _ => .pure ?_) fun _ => .pure waits) ?_
  · have url := parsing.url notLine
    have content : CheckState.content ≠ .requestLine := by decide
    exact ⟨{ parsing with length := fun other => absurd other content, url := fun _ => url }, content⟩
  · refine fun _ => .ite (fun _ => .ite (fun _ => .pure ?_) fun _ => .pure waits) ?_
    · exact ⟨{ parsing with }, notLine⟩
    · refine fun _ => .ite (fun _ => .pure ⟨parsing.announced notLine (toInt_range _), notLine⟩) ?_
      refine fun _ => .ite (fun _ => .pure ?_) fun _ => .pure waits
      exact ⟨{ parsing with }, notLine⟩

theorem parseContent (parsing : conn.Parsing) (state : conn.checkState = .content) (offset : Nat) :
    Yields (conn.parseContent offset) fun value =>
      value.1.Parsing ∧ value.1.checkState ≠ .requestLine := by
  have notLine : conn.checkState ≠ .requestLine := by
    rw [state]
    decide
  unfold HttpConn.parseContent
  refine .bind_any fun sum => .ite (fun _ => .pure ⟨parsing.storeRead _, ?_⟩) fun _ =>
    .pure ⟨parsing, notLine⟩
  unfold HttpConn.storeRead
  split <;> exact notLine

theorem goesOn (parsing : conn.Parsing) (lineStatus : LineStatus) :
    Yields (conn.goesOn lineStatus) fun value => value.1.Parsing := by
  unfold HttpConn.goesOn
  refine .ite (fun _ => .ok parsing) fun _ => ?_
  exact .bind parsing.parseLine fun _ parsed => .pure parsed

/-- `do_request` is called once the request line has been accepted. -/
theorem handleLine (parsing : conn.Parsing) (lineStatus : LineStatus) :
    Yields (conn.handleLine lineStatus) fun value => value.1.Parsing ∧
      (value.2 = .leave .doRequest → value.1.checkState ≠ .requestLine) := by
  have next := parsing.nextLine
  have inside := Nat.le_trans parsing.started parsing.checked
  unfold HttpConn.handleLine
  dsimp only
  split
  · next state =>
      refine .bind (next.parseRequestLine state inside) fun value parsed => ?_
      refine .ite (fun _ => .pure ⟨parsed, ?_⟩) fun _ => .pure ⟨parsed, ?_⟩
      · intro same
        cases same
      · intro same
        cases same
  · next state =>
      refine .bind (next.parseHeaders state _) fun value parsed => ?_
      refine .ite (fun _ => .pure ⟨parsed.1, fun _ => parsed.2⟩) fun _ => ?_
      exact .ite (fun _ => .pure ⟨parsed.1, fun _ => parsed.2⟩) fun _ =>
        .pure ⟨parsed.1, fun _ => parsed.2⟩
  · next state =>
      refine .bind (next.parseContent state _) fun value parsed => ?_
      exact .ite (fun _ => .pure ⟨parsed.1, fun _ => parsed.2⟩) fun _ =>
        .pure ⟨parsed.1, fun _ => parsed.2⟩

theorem processReadLoop (parsing : conn.Parsing) (lineStatus : LineStatus) (fuel : Nat) :
    Yields (conn.processReadLoop lineStatus fuel) fun value => value.1.Parsing ∧
      (value.2 = .doRequest → value.1.checkState ≠ .requestLine) := by
  induction fuel generalizing conn lineStatus with
  | zero => exact .error _
  | succ fuel ih =>
      unfold HttpConn.processReadLoop
      refine .bind (parsing.goesOn lineStatus) fun guard guarded => .ite (fun _ => ?_) fun _ =>
        .pure ⟨guarded, fun same => by cases same⟩
      refine .bind (guarded.handleLine lineStatus) fun handled parsed => ?_
      obtain ⟨handled, roundEnd⟩ := handled
      cases roundEnd with
      | leave exit => exact .pure ⟨parsed.1, fun same => parsed.2 (congrArg _ same)⟩
      | next status => exact ih parsed.1 status

theorem openFile (parsing : conn.Parsing) (files : FileSystem) (path : Text) :
    (conn.openFile files path).1.Parsing := by
  unfold HttpConn.openFile
  split
  · exact parsing
  · dsimp only
    split
    · exact { parsing with }
    · split
      · exact { parsing with }
      · exact { parsing with }

theorem doRequest (parsing : conn.Parsing) (files : FileSystem) :
    Yields (conn.doRequest files) fun value => value.1.Parsing := by
  unfold HttpConn.doRequest
  refine .bind_any fun url => .bind_any fun path => .pure ?_
  have moved : { conn with realFile := conn.joinPath url }.Parsing := { parsing with }
  exact moved.openFile files path

/-- The url is there when `do_request` looks for it. -/
theorem doRequest_returns (parsing : conn.Parsing) (named : conn.NameEnds)
    (state : conn.checkState ≠ .requestLine) (files : FileSystem) :
    ∃ result, conn.doRequest files = .ok result := by
  obtain ⟨url, pointer, inside⟩ := parsing.url state
  obtain ⟨text, holds, -⟩ := parsing.holds inside
  have urlText : conn.urlText = .ok text := by
    unfold HttpConn.urlText
    rw [pointer]
    exact holds.text_eq
  exact ⟨_, doRequest_of_path urlText (joinPath_holds named holds.1).text_eq⟩

theorem processRead (parsing : conn.Parsing) (files : FileSystem) (fuel : Nat) :
    Yields (conn.processRead files fuel) fun value => value.1.Parsing := by
  unfold HttpConn.processRead
  refine .bind (parsing.processReadLoop .lineOk fuel) fun value parsed => ?_
  obtain ⟨parsing', exit⟩ := value
  cases exit with
  | code code => exact .pure parsed.1
  | doRequest => exact parsed.1.doRequest files

theorem received (parsing : conn.Parsing) {bytes : Text}
    (fits : conn.readIdx + bytes.length < readBufferSize) :
    { conn with
      readBuf := conn.readBuf.copyIn conn.readIdx bytes
      readIdx := conn.readIdx + bytes.length }.Parsing := by
  have other : ∀ index, index < conn.readIdx ∨ conn.readIdx + bytes.length ≤ index →
      (conn.readBuf.copyIn conn.readIdx bytes).bytes[index]? = conn.readBuf.bytes[index]? :=
    fun index => Buffer.copyIn_bytes_other (Nat.le_of_lt fits)
  have checked := parsing.checked
  constructor
  · exact parsing.started
  · exact Nat.le_add_right_of_le checked
  · exact fits
  · intro index behind inside
    dsimp only at behind ⊢
    rw [other index (.inr behind)]
    exact parsing.unused index (by omega) inside
  · intro positive
    dsimp only at positive ⊢
    rw [other _ (.inl (by omega))]
    exact parsing.passed positive
  · exact parsing.length
  · exact parsing.range
  · intro state
    obtain ⟨url, pointer, inside⟩ := parsing.url state
    exact ⟨url, pointer, Nat.le_add_right_of_le inside⟩

end Parsing

theorem readIdx_le_readLoop (conn : HttpConn) (results : List RecvResult) :
    conn.readIdx ≤ (conn.readLoop results).1.readIdx := by
  induction results generalizing conn with
  | nil => exact Nat.le_refl _
  | cons result results ih =>
      unfold readLoop
      split
      · exact Nat.le_refl _
      · exact Nat.le_refl _
      · exact Nat.le_refl _
      · next bytes _ =>
          have later := ih { conn with
            readBuf := conn.readBuf.copyIn conn.readIdx bytes
            readIdx := conn.readIdx + bytes.length }
          exact Nat.le_trans (Nat.le_add_right _ _) later

theorem Parsing.readLoop (parsing : conn.Parsing) (results : List RecvResult)
    (fits : (conn.readLoop results).1.readIdx < readBufferSize) :
    (conn.readLoop results).1.Parsing := by
  induction results generalizing conn with
  | nil => exact parsing
  | cons result results ih =>
      unfold HttpConn.readLoop at fits ⊢
      split
      · exact parsing
      · exact parsing
      · exact parsing
      · next bytes some =>
          simp only [some] at fits
          have room := readIdx_le_readLoop { conn with
            readBuf := conn.readBuf.copyIn conn.readIdx bytes
            readIdx := conn.readIdx + bytes.length } results
          exact ih (parsing.received (Nat.lt_of_le_of_lt room fits)) fits

theorem Parsing.receives (parsing : conn.Parsing) (results : List RecvResult)
    (fits : (conn.read results).1.readIdx < readBufferSize) : (conn.read results).1.Parsing := by
  unfold HttpConn.read at fits ⊢
  split
  · exact parsing
  · next room =>
      rw [if_neg room] at fits
      exact parsing.readLoop results fits

theorem parsing_reset (conn : HttpConn) : conn.reset.Parsing where
  started := Nat.le_refl _
  checked := Nat.le_refl _
  read := Nat.zero_lt_succ 2047
  unused := fun index _ inside => List.getElem?_replicate_of_lt inside
  passed := fun positive => absurd positive (Nat.lt_irrefl 0)
  length := fun _ => rfl
  range := (by decide : -2147483648 ≤ (0 : Int) ∧ (0 : Int) ≤ 2147483647)
  url := fun state => absurd rfl state

/-- The states from `init` on, with room left in the buffer. -/
inductive Reachable : HttpConn → Prop where
  | init (conn : HttpConn) (sockfd : Int) : Reachable (conn.init sockfd).1
  | read {conn : HttpConn} (results : List RecvResult) :
      Reachable conn → (conn.read results).1.readIdx < readBufferSize →
      Reachable (conn.read results).1
  | processRead {conn conn' : HttpConn} {files : FileSystem} {fuel : Nat} {code : HttpCode} :
      Reachable conn → conn.processRead files fuel = .ok (conn', code) → Reachable conn'

theorem Reachable.opened (reachable : conn.Reachable) : conn.Opened := by
  induction reachable with
  | init conn sockfd => exact .init conn sockfd
  | read results _ _ opened => exact opened.read results
  | processRead _ done opened => exact opened.processRead done

theorem Reachable.parsing (reachable : conn.Reachable) : conn.Parsing := by
  induction reachable with
  | init conn sockfd => exact parsing_reset _
  | read results _ fits parsing => exact parsing.receives results fits
  | processRead _ done parsing => exact parsing.processRead _ _ _ done

end HttpConn

end HPLinuxServer.Http
