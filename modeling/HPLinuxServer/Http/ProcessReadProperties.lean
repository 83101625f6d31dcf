import HPLinuxServer.Http.HttpResponse
import HPLinuxServer.Http.RequestLineProperties

/-!
# What `process_read` makes of the first bytes

The guard of its loop lets a line through exactly when `parse_line` has not found
the end of one. So bytes with a CRLF wait for ever, bytes without any line end are
taken for a request line, and at any other line end the loop gives up or spins.
-/

set_option autoImplicit false

namespace HPLinuxServer.Http

open Memory

namespace HttpConn

/-- A connection after `init()` with these bytes in `m_read_buf`. -/
def place (conn : HttpConn) (received : Text) : HttpConn :=
  { conn.reset with
    readBuf := conn.reset.readBuf.copyIn 0 received
    readIdx := received.length }

variable {conn : HttpConn} {received : Text}

@[simp] theorem place_checkState : (conn.place received).checkState = .requestLine := rfl

theorem place_bytes (fits : received.length ≤ readBufferSize) :
    (conn.place received).readBuf.bytes =
      received ++ List.replicate (readBufferSize - received.length) 0 := by
  unfold place reset Buffer.copyIn Buffer.zero
  simp only [List.take_zero, List.nil_append, Nat.zero_add, List.drop_replicate]
  apply List.take_of_length_le
  simp
  omega

variable (conn) in
theorem place_received (fits : received.length ≤ readBufferSize) :
    (conn.place received).Received received :=
  ⟨⟨_, (place_bytes fits).symm⟩, rfl⟩

variable (conn) in
theorem place_nul (fits : received.length < readBufferSize) :
    (conn.place received).readBuf.bytes[received.length]? = some 0 := by
  rw [place_bytes (Nat.le_of_lt fits), List.getElem?_append_right (Nat.le_refl _), Nat.sub_self]
  exact List.getElem?_replicate_of_lt (by omega)

variable (conn) in
theorem place_holds (clean : 0 ∉ received) (fits : received.length < readBufferSize) :
    (conn.place received).readBuf.Holds 0 received :=
  Buffer.holds_copyIn_zero clean fits

/-- The byte at `m_checked_idx` ends no line properly, and stays. -/
structure Halts (conn : HttpConn) (byte : UInt8) : Prop where
  ends : EndsLine byte
  inside : conn.checkedIdx < conn.readIdx
  found : conn.readBuf.bytes[conn.checkedIdx]? = some byte
  behind : byte = carriageReturn → conn.checkedIdx + 1 = conn.readIdx ∨
    ∃ next, conn.readBuf.bytes[conn.checkedIdx + 1]? = some next ∧ next ≠ lineFeed
  before : byte = lineFeed →
    ∃ previous, conn.readBuf.bytes[conn.checkedIdx - 1]? = some previous ∧
      previous ≠ carriageReturn

namespace Halts

variable {byte : UInt8}

theorem parseLineLoop (halts : conn.Halts byte) (rounds : Nat) :
    ∃ status, status ≠ .lineOk ∧ conn.parseLineLoop (rounds + 1) = .ok (conn, status) := by
  rw [parseLineLoop_stop (Buffer.load_eq halts.found) halts.ends]
  by_cases isReturn : byte = carriageReturn
  · rw [if_pos isReturn]
    rcases halts.behind isReturn with last | ⟨next, found, other⟩
    · exact ⟨.lineOpen, by decide, if_pos last⟩
    · by_cases last : conn.checkedIdx + 1 = conn.readIdx
      · exact ⟨.lineOpen, by decide, if_pos last⟩
      · rw [if_neg last, Buffer.load_eq found, ok_bind]
        exact ⟨.lineBad, by decide, if_neg other⟩
  · obtain ⟨previous, found, other⟩ := halts.before (halts.ends.resolve_left isReturn)
    rw [if_neg isReturn, Buffer.load_eq found, ok_bind]
    exact ⟨.lineBad, by decide, if_neg fun both => other both.2⟩

theorem parseLine (halts : conn.Halts byte) :
    ∃ status, status ≠ .lineOk ∧ conn.parseLine = .ok (conn, status) := by
  obtain ⟨rounds, more⟩ : ∃ rounds, conn.readIdx - conn.checkedIdx = rounds + 1 :=
    ⟨conn.readIdx - conn.checkedIdx - 1, by have := halts.inside; omega⟩
  unfold HttpConn.parseLine
  rw [more]
  exact halts.parseLineLoop rounds

theorem notBlank (ends : EndsLine byte) : byte ∉ blanks := by
  rcases ends with rfl | rfl
  · decide
  · decide

theorem notNul (ends : EndsLine byte) : byte ≠ 0 := by
  rcases ends with rfl | rfl
  · decide
  · decide

theorem frame {conn' : HttpConn} (halts : conn.Halts byte) (frame : conn.LineFrame conn') :
    conn'.Halts byte := by
  have readIdx : conn'.readIdx = conn.readIdx := by rw [frame.others]
  have checkedIdx : conn'.checkedIdx = conn.checkedIdx := by rw [frame.others]
  have kept : ∀ (index : Nat) (old avoided : UInt8), conn.readBuf.bytes[index]? = some old →
      old ≠ avoided → avoided ≠ 0 →
      ∃ new, conn'.readBuf.bytes[index]? = some new ∧ new ≠ avoided := by
    intro index old avoided found other notNul
    rcases frame.blanked index with same | ⟨-, nul⟩
    · exact ⟨old, same.trans found, other⟩
    · exact ⟨0, nul, notNul.symm⟩
  constructor
  · exact halts.ends
  · rw [readIdx, checkedIdx]
    exact halts.inside
  · rw [checkedIdx]
    exact frame.blanked.kept halts.found (notBlank halts.ends)
  · intro isReturn
    rw [checkedIdx, readIdx]
    rcases halts.behind isReturn with last | ⟨next, found, other⟩
    · exact .inl last
    · exact .inr (kept _ next lineFeed found other (by decide))
  · intro isFeed
    rw [checkedIdx]
    obtain ⟨previous, found, other⟩ := halts.before isFeed
    exact kept _ previous carriageReturn found other (by decide)

end Halts

theorem parseHeaders_unknown {text : Nat} {first : UInt8} {rest : Text} (ends : EndsLine first)
    (line : conn.readBuf.text text = .ok (first :: rest)) :
    conn.parseHeaders text = .ok (conn, .noRequest) := by
  have other : ∀ (name : String) (count : Nat), 0 < count → toLower first ∉ (ascii name).map toLower →
      strncasecmpEq (first :: rest) (ascii name) count = false := by
    intro name count positive absent
    apply decide_eq_false
    intro same
    obtain ⟨count, rfl⟩ : ∃ smaller, count = smaller + 1 := ⟨count - 1, by omega⟩
    apply absent
    have member : toLower first ∈ ((first :: rest).take (count + 1)).map toLower := by simp
    rw [same] at member
    exact List.map_subset _ (List.take_subset _ _) member
  have unknown : ∀ name ∈ ["Connection:", "Content-Length:", "Host:"],
      toLower first ∉ (ascii name).map toLower := by
    rcases ends with rfl | rfl
    · decide
    · decide
  unfold parseHeaders
  simp only [line, ok_bind, other "Connection:" 11 (by decide) (unknown _ (by simp)),
    other "Content-Length:" 15 (by decide) (unknown _ (by simp)),
    other "Host:" 5 (by decide) (unknown _ (by simp))]
  rfl

theorem goesOn_of_parseLine {conn' : HttpConn} {status : LineStatus}
    (notContent : conn.checkState ≠ .content) (parsed : conn.parseLine = .ok (conn', status)) :
    conn.goesOn .lineOk = .ok (conn', decide (status ≠ .lineOk)) := by
  unfold goesOn
  rw [if_neg fun both => notContent both.1, parsed]
  cases status <;> rfl

/-- A round in which `parse_line` finds the end of a line is the last one. -/
theorem processReadLoop_leaves {conn' : HttpConn} (notContent : conn.checkState ≠ .content)
    (parsed : conn.parseLine = .ok (conn', .lineOk)) (fuel : Nat) :
    conn.processReadLoop .lineOk (fuel + 1) = .ok (conn', .code .noRequest) := by
  rw [processReadLoop, goesOn_of_parseLine notContent parsed]
  rfl

theorem processReadLoop_enters {conn' : HttpConn} {status : LineStatus}
    (notContent : conn.checkState ≠ .content) (parsed : conn.parseLine = .ok (conn', status))
    (notOk : status ≠ .lineOk) (fuel : Nat) :
    conn.processReadLoop .lineOk (fuel + 1) = (do
      match ← conn'.handleLine .lineOk with
      | (conn, .leave exit) => return (conn, exit)
      | (conn, .next lineStatus) => conn.processReadLoop lineStatus fuel) := by
  rw [processReadLoop, goesOn_of_parseLine notContent parsed, decide_eq_true notOk]
  rfl

variable (conn) in
theorem handleLine_requestLine {conn' : HttpConn} {ret : HttpCode}
    (state : conn.checkState = .requestLine)
    (parsed : conn.nextLine.parseRequestLine conn.startLine = .ok (conn', ret)) :
    conn.handleLine .lineOk =
      .ok (conn', if ret = .badRequest then .leave (.code .badRequest) else .next .lineOk) := by
  have here : conn.nextLine.checkState = .requestLine := state
  unfold handleLine
  simp only [here, parsed, ok_bind, pure_eq_ok]
  split <;> rfl

theorem handleLine_header {conn' : HttpConn} {ret : HttpCode} (state : conn.checkState = .header)
    (parsed : conn.nextLine.parseHeaders conn.startLine = .ok (conn', ret)) :
    conn.handleLine .lineOk =
      .ok (conn', if ret = .badRequest then .leave (.code .badRequest)
        else if ret = .getRequest then .leave .doRequest else .next .lineOk) := by
  have here : conn.nextLine.checkState = .header := state
  unfold handleLine
  simp only [here, parsed, ok_bind, pure_eq_ok]
  split
  · rfl
  · split <;> rfl

/-- `process_read` spins: no line can be got past the byte it halts at. -/
theorem processReadLoop_spins {byte : UInt8} (halts : conn.Halts byte)
    (state : conn.checkState = .header) (start : conn.startLine = conn.checkedIdx)
    {line : Text} (text : conn.readBuf.text conn.checkedIdx = .ok (byte :: line)) (fuel : Nat) :
    conn.processReadLoop .lineOk fuel = .error .outOfFuel := by
  induction fuel with
  | zero => rfl
  | succ fuel ih =>
      obtain ⟨status, notOk, halted⟩ := halts.parseLine
      have same : conn.nextLine = conn :=
        congrArg (fun line => { conn with startLine := line }) start.symm
      have unknown : conn.nextLine.parseHeaders conn.startLine = .ok (conn, .noRequest) := by
        rw [same, start]
        exact parseHeaders_unknown halts.ends text
      rw [processReadLoop_enters (by rw [state]; decide) halted notOk,
        handleLine_header state unknown]
      exact ih

theorem processReadLoop_mono {lineStatus : LineStatus} {fuel more : Nat}
    {result : HttpConn × ReadExit} (done : conn.processReadLoop lineStatus fuel = .ok result)
    (enough : fuel ≤ more) : conn.processReadLoop lineStatus more = .ok result := by
  induction fuel generalizing conn lineStatus more with
  | zero => exact nomatch done
  | succ fuel ih =>
      obtain ⟨more, rfl⟩ : ∃ smaller, more = smaller + 1 := ⟨more - 1, by omega⟩
      rw [processReadLoop] at done ⊢
      obtain ⟨⟨guarded, goes⟩, guard, rest⟩ := bind_eq_ok_iff.mp done
      rw [guard, ok_bind]
      cases goes with
      | false => exact rest
      | true =>
          obtain ⟨⟨handled, ending⟩, body, rest⟩ := bind_eq_ok_iff.mp rest
          simp only [if_true, body, ok_bind]
          cases ending with
          | leave exit => exact rest
          | next lineStatus => exact ih rest (Nat.le_of_succ_le_succ enough)

/-- The loop ends in this way, given enough fuel. -/
def LoopEnds (conn : HttpConn) (result : HttpConn × ReadExit) : Prop :=
  ∃ fuel, conn.processReadLoop .lineOk fuel = .ok result

theorem LoopEnds.unique {result result' : HttpConn × ReadExit} (ends : conn.LoopEnds result)
    (ends' : conn.LoopEnds result') : result = result' := by
  obtain ⟨fuel, done⟩ := ends
  obtain ⟨fuel', done'⟩ := ends'
  have first := processReadLoop_mono done (Nat.le_max_left fuel fuel')
  have second := processReadLoop_mono done' (Nat.le_max_right fuel fuel')
  exact Except.ok.inj (first.symm.trans second)

/-! ## The outcomes of the first call -/

/-- The first walk of `parse_line`, up to a line end. -/
theorem place_walks {front rest : Text} {byte : UInt8} (fits : received.length < readBufferSize)
    (split : received = front ++ byte :: rest) (plain : OneLine front) :
    (conn.place received).parseLine =
      { conn.place received with checkedIdx := front.length }.parseLineLoop (rest.length + 1) := by
  have start : (conn.place received).checkedIdx = 0 := rfl
  have ahead : received.drop (conn.place received).checkedIdx = front ++ byte :: rest := split
  have walked := (place_received conn (Nat.le_of_lt fits)).parseLine_skip ahead plain
  rwa [start, Nat.zero_add] at walked

variable (conn) in
/-- A CRLF: the call waits for more, with its line end overwritten. -/
theorem place_crlf {front rest : Text} (fits : received.length < readBufferSize)
    (split : received = front ++ carriageReturn :: lineFeed :: rest) (plain : OneLine front) :
    (conn.place received).LoopEnds
      ({ conn.place received with checkedIdx := front.length }.endLine, .code .noRequest) := by
  have holds := place_received conn (Nat.le_of_lt fits)
  have moved : { conn.place received with checkedIdx := front.length }.Received received :=
    ⟨holds.bytes, holds.readIdx⟩
  have stopped := moved.parseLineLoop_return
    (by rw [split]; exact List.drop_left) (lineFeed :: rest).length
  rw [if_pos rfl] at stopped
  exact ⟨1, processReadLoop_leaves (by simp) ((place_walks fits split plain).trans stopped) 0⟩

/-- No line end: the string in the buffer is taken for a request line, and behind an
acceptable one the empty rest of the buffer ends the request. -/
theorem place_plain {line : Text} (text : (conn.place received).readBuf.Holds 0 line)
    (fits : received.length < readBufferSize) (plain : OneLine received) :
    (∃ conn', (conn.place received).LoopEnds (conn', .code .badRequest)) ∨
      (∃ words : RequestLine, line = words.bytes ∧ words.Shaped ∧ words.Served) ∧
        ∃ conn' url, (conn.place received).LoopEnds (conn', .doRequest) ∧
          conn'.urlText = .ok url := by
  have holds := place_received conn (Nat.le_of_lt fits)
  have opened := holds.parseLine_open (by exact plain) (Nat.zero_le _)
  let walked : HttpConn := { conn.place received with checkedIdx := received.length }
  obtain ⟨parsed, ret, done, frame, outcome⟩ := walked.nextLine.parseRequestLine_spec text
  have handled := walked.handleLine_requestLine rfl done
  have enters := processReadLoop_enters (by simp) opened (by decide)
  rcases outcome with ⟨words, split, shaped, served, accepted⟩ | ⟨rejected, -⟩
  · right
    refine ⟨⟨words, split, shaped, served⟩, ?_⟩
    have readIdx : parsed.readIdx = received.length := by rw [frame.others]; rfl
    have checkedIdx : parsed.checkedIdx = received.length := by rw [frame.others]; rfl
    have startLine : parsed.startLine = received.length := by rw [frame.others]; rfl
    have nothing : parsed.parseLine = .ok (parsed, .lineOpen) := by
      unfold parseLine
      rw [readIdx, checkedIdx, Nat.sub_self]
      rfl
    have nul : parsed.readBuf.bytes[received.length]? = some 0 :=
      frame.blanked.kept (place_nul conn fits) (by decide)
    have empty : parsed.nextLine.readBuf.text parsed.startLine = .ok [] := by
      rw [startLine]
      exact (Buffer.holds_nil nul).text_eq
    have ended : parsed.nextLine.parseHeaders parsed.startLine =
        .ok (parsed.nextLine, .getRequest) := by
      have length : parsed.nextLine.contentLength = 0 := by
        change parsed.contentLength = 0
        rw [frame.others]
        rfl
      unfold parseHeaders
      simp only [empty, ok_bind, if_true, length]
      rfl
    have second := processReadLoop_enters (by rw [accepted.checkState]; decide) nothing (by decide) 0
    rw [handleLine_header accepted.checkState ended] at second
    obtain ⟨path, offset, -, pointer, url⟩ := accepted.path
    refine ⟨parsed.nextLine, path, ⟨2, ?_⟩, ?_⟩
    · rw [enters, handled, if_neg (by rw [accepted.ret]; decide)]
      exact second
    · have pointer' : parsed.nextLine.url = some offset := pointer
      unfold urlText
      rw [pointer']
      exact url.text_eq
  · left
    refine ⟨parsed, 1, ?_⟩
    rw [enters, handled, if_pos rejected]
    rfl

/-- A request line that the walk halts in: the call fails or does not return. -/
theorem requestLine_halts {stopped : HttpConn} {rounds : Nat} {byte : UInt8}
    (state : conn.checkState = .requestLine) (stoppedState : stopped.checkState = .requestLine)
    (walked : conn.parseLine = stopped.parseLineLoop (rounds + 1)) (halts : stopped.Halts byte)
    (start : stopped.startLine ≤ stopped.readIdx)
    (nul : stopped.readBuf.bytes[stopped.readIdx]? = some 0) :
    (∃ conn', conn.LoopEnds (conn', .code .badRequest)) ∨
      ∀ fuel, conn.processReadLoop .lineOk fuel = .error .outOfFuel := by
  obtain ⟨status, notOk, halted⟩ := halts.parseLineLoop rounds
  have enters := processReadLoop_enters (by rw [state]; decide) (walked.trans halted) notOk
  obtain ⟨line, text⟩ := Buffer.holds_of_nul start nul
  obtain ⟨parsed, ret, done, frame, outcome⟩ :=
    stopped.nextLine.parseRequestLine_spec text
  have handled := stopped.handleLine_requestLine stoppedState done
  rcases outcome with ⟨words, -, -, -, accepted⟩ | ⟨rejected, -⟩
  · right
    have onLine : stopped.nextLine.Halts byte :=
      ⟨halts.ends, halts.inside, halts.found, halts.behind, halts.before⟩
    have again : parsed.Halts byte := onLine.frame frame
    have checkedIdx : parsed.checkedIdx = stopped.checkedIdx := by rw [frame.others]; rfl
    have startLine : parsed.startLine = parsed.checkedIdx := by rw [frame.others]; rfl
    obtain ⟨line, spinning⟩ := Buffer.text_of_nul again.found (Halts.notNul halts.ends)
      (by rw [checkedIdx]; exact Nat.le_of_lt halts.inside) (frame.blanked.kept nul (by decide))
    intro fuel
    cases fuel with
    | zero => rfl
    | succ fuel =>
        rw [enters, handled, if_neg (by rw [accepted.ret]; decide)]
        exact processReadLoop_spins again accepted.checkState startLine spinning fuel
  · left
    refine ⟨parsed, 1, ?_⟩
    rw [enters, handled, if_pos rejected]
    rfl

variable (conn) in
theorem place_halts (fits : received.length < readBufferSize)
    {front rest : Text} {byte : UInt8} (split : received = front ++ byte :: rest)
    (plain : OneLine front) (ends : EndsLine byte)
    (improper : ¬ (byte = carriageReturn ∧ rest.head? = some lineFeed)) :
    (∃ conn', (conn.place received).LoopEnds (conn', .code .badRequest)) ∨
      ∀ fuel, (conn.place received).processReadLoop .lineOk fuel = .error .outOfFuel := by
  have holds := place_received conn (Nat.le_of_lt fits)
  let stopped : HttpConn := { conn.place received with checkedIdx := front.length }
  have bytes : ∀ {i : Nat} {other : UInt8}, (front ++ byte :: rest)[i]? = some other →
      stopped.readBuf.bytes[i]? = some other := by
    rw [← split]
    exact fun found => holds.byte found
  have halts : stopped.Halts byte := by
    constructor
    · exact ends
    · change front.length < received.length
      rw [split]
      simp
    · exact bytes (by simp [stopped])
    · intro isReturn
      cases rest with
      | nil =>
          left
          change front.length + 1 = received.length
          rw [split]
          simp
      | cons next rest =>
          right
          refine ⟨next, bytes (by simp [stopped]), fun isFeed => improper ⟨isReturn, ?_⟩⟩
          rw [isFeed]
          rfl
    · intro isFeed
      rcases List.eq_nil_or_concat front with rfl | ⟨init, last, rfl⟩
      · exact ⟨lineFeed, bytes (by simp [stopped, isFeed]), by decide⟩
      · refine ⟨last, bytes (by simp [stopped]), ?_⟩
        exact (plain last (by simp)).1
  exact requestLine_halts (by simp) rfl (place_walks fits split plain) halts (Nat.zero_le _) (place_nul conn fits)

end HttpConn

end HPLinuxServer.Http
