import HPLinuxServer.Http.LineSplitting
import HPLinuxServer.Http.ParserStates

/-!
# Whether `process_read` returns

Its loop goes on as long as `parse_line` finds no CRLF. At any other line end the parser
stays where it is, so the call does not return unless the request is given up or complete by
then.
-/

set_option autoImplicit false

namespace HPLinuxServer.Http

open Memory

namespace HttpConn

variable {conn conn' : HttpConn} {lineStatus lineStatus' : LineStatus}

/-! ## Rounds of the loop -/

/-- The guard and the body of the loop. -/
def round (conn : HttpConn) (lineStatus : LineStatus) : Except Fault (HttpConn × RoundEnd) := do
  let (conn, goesOn) ← conn.goesOn lineStatus
  if goesOn then conn.handleLine lineStatus else return (conn, .leave (.code .noRequest))

theorem processReadLoop_round (fuel : Nat) :
    conn.processReadLoop lineStatus (fuel + 1) = (do
      match ← conn.round lineStatus with
      | (conn, .leave exit) => return (conn, exit)
      | (conn, .next lineStatus) => conn.processReadLoop lineStatus fuel) := by
  rw [processReadLoop]
  unfold round
  cases conn.goesOn lineStatus with
  | error fault => rfl
  | ok value =>
      obtain ⟨guarded, goes⟩ := value
      cases goes <;> rfl

/-- The loop is left after some number of rounds. -/
def LoopReturns (conn : HttpConn) (lineStatus : LineStatus) : Prop :=
  ∃ fuel result, conn.processReadLoop lineStatus fuel = .ok result

theorem loopReturns_leave {exit : ReadExit}
    (left : conn.round lineStatus = .ok (conn', .leave exit)) : conn.LoopReturns lineStatus := by
  refine ⟨1, (conn', exit), ?_⟩
  rw [processReadLoop_round, left]
  rfl

theorem loopReturns_next (goes : conn.round lineStatus = .ok (conn', .next lineStatus')) :
    conn.LoopReturns lineStatus ↔ conn'.LoopReturns lineStatus' := by
  constructor
  · rintro ⟨fuel, result, done⟩
    cases fuel with
    | zero => cases done
    | succ fuel =>
        rw [processReadLoop_round, goes] at done
        exact ⟨fuel, result, done⟩
  · rintro ⟨fuel, result, done⟩
    refine ⟨fuel + 1, result, ?_⟩
    rw [processReadLoop_round, goes]
    exact done

theorem not_loopReturns_fault {fault : Fault} (failed : conn.round lineStatus = .error fault) :
    ¬ conn.LoopReturns lineStatus := by
  rintro ⟨fuel, result, done⟩
  cases fuel with
  | zero => cases done
  | succ fuel =>
      rw [processReadLoop_round, failed] at done
      cases done

/-- The loop is not left if every round comes to a fault or to a state of the same kind. -/
theorem not_loopReturns_of_stuck {Stuck : HttpConn → LineStatus → Prop}
    (stays : ∀ conn lineStatus, Stuck conn lineStatus →
      (∃ fault, conn.round lineStatus = .error fault) ∨
        ∃ conn' lineStatus', conn.round lineStatus = .ok (conn', .next lineStatus') ∧
          Stuck conn' lineStatus')
    (stuck : Stuck conn lineStatus) : ¬ conn.LoopReturns lineStatus := by
  rintro ⟨fuel, result, done⟩
  induction fuel generalizing conn lineStatus with
  | zero => cases done
  | succ fuel ih =>
      rw [processReadLoop_round] at done
      rcases stays conn lineStatus stuck with ⟨fault, failed⟩ | ⟨conn', status, goes, again⟩
      · rw [failed] at done
        cases done
      · rw [goes] at done
        exact ih again done

theorem goesOn_open {status : LineStatus} (parsed : conn.parseLine = .ok (conn', status)) :
    conn.goesOn .lineOpen = .ok (conn', decide (status ≠ .lineOpen)) := by
  unfold goesOn
  rw [if_neg (fun both => by cases both.2), parsed]
  cases status <;> rfl

/-! ## The line end ahead -/

/-- What is pending from the first byte on that ends a line. -/
def lineEnd (conn : HttpConn) : Text := conn.pending.dropWhile fun byte => byte ∉ crlf

/-- Where that byte stands, or the end of what has been received. -/
def endIdx (conn : HttpConn) : Nat := conn.readIdx - conn.lineEnd.length

/-- `parse_line` has to wait for more. -/
def Waits (conn : HttpConn) : Prop := conn.lineEnd = [] ∨ conn.lineEnd = [carriageReturn]

/-- The connection once `parse_line` has come to the line end. -/
def stopped (conn : HttpConn) : HttpConn := { conn with checkedIdx := conn.endIdx }

theorem dropWhile_plain {front rest : Text} (plain : OneLine front) :
    (front ++ rest).dropWhile (fun byte => byte ∉ crlf) = rest.dropWhile fun byte => byte ∉ crlf := by
  apply List.dropWhile_append_of_pos
  intro byte member
  simp [crlf, (plain byte member).1, (plain byte member).2]

variable (conn) in
theorem lineEnd_cases : conn.lineEnd = [] ∧ OneLine conn.pending ∨
    ∃ front byte rest, conn.pending = front ++ byte :: rest ∧ OneLine front ∧ EndsLine byte ∧
      conn.lineEnd = byte :: rest := by
  unfold lineEnd
  rcases cut_line conn.pending with plain | ⟨front, byte, rest, ahead, plain, ends⟩
  · have passed : (conn.pending ++ []).dropWhile (fun byte => byte ∉ crlf) = [] :=
      dropWhile_plain plain
    rw [List.append_nil] at passed
    exact .inl ⟨passed, plain⟩
  · refine .inr ⟨front, byte, rest, ahead, plain, ends, ?_⟩
    rw [ahead, dropWhile_plain plain]
    apply List.dropWhile_cons_of_neg
    rcases ends with rfl | rfl
    · decide
    · decide

theorem Parsing.length_pending (parsing : conn.Parsing) :
    conn.checkedIdx + conn.pending.length = conn.readIdx := by
  have checked := parsing.checked
  have read := parsing.read
  have length := conn.readBuf.length_bytes
  unfold pending
  rw [List.length_drop, List.length_take]
  omega

theorem pending_advance (conn : HttpConn) (checkedIdx : Nat) :
    { conn with checkedIdx := conn.checkedIdx + checkedIdx }.pending =
      conn.pending.drop checkedIdx := by
  unfold pending
  rw [List.drop_drop]

theorem Parsing.skip (parsing : conn.Parsing) {front rest : Text}
    (ahead : conn.pending = front ++ rest) (plain : OneLine front) :
    { conn with checkedIdx := conn.checkedIdx + front.length }.Parsing := by
  induction front generalizing conn with
  | nil => exact parsing
  | cons byte front ih =>
      have inside : conn.checkedIdx < conn.readIdx := by
        have length := parsing.length_pending
        rw [ahead] at length
        simp only [List.length_append, List.length_cons] at length
        omega
      have found : conn.readBuf.bytes[conn.checkedIdx]? = some byte := by
        have first := congrArg List.head? ahead
        unfold pending at first
        rw [List.head?_drop, List.getElem?_take_of_lt inside] at first
        exact first
      have advanced := parsing.advance inside (by
        rw [found]
        intro same
        exact (plain byte List.mem_cons_self).1 (Option.some.inj same))
      have later := ih advanced (by
        rw [pending_advance, ahead]
        rfl) fun other member => plain other (List.mem_cons_of_mem _ member)
      rw [List.length_cons, Nat.add_comm front.length, ← Nat.add_assoc]
      exact later

namespace Parsing

theorem walk (parsing : conn.Parsing) :
    ∃ front, conn.pending = front ++ conn.lineEnd ∧ OneLine front ∧
      conn.endIdx = conn.checkedIdx + front.length := by
  have length := parsing.length_pending
  unfold endIdx
  rcases conn.lineEnd_cases with ⟨none, plain⟩ | ⟨front, byte, rest, ahead, plain, -, found⟩
  · refine ⟨conn.pending, by rw [none, List.append_nil], plain, ?_⟩
    rw [none, List.length_nil]
    omega
  · refine ⟨front, by rw [found, ahead], plain, ?_⟩
    rw [found]
    rw [ahead, List.length_append] at length
    omega

theorem stopped (parsing : conn.Parsing) : conn.stopped.Parsing := by
  obtain ⟨front, ahead, plain, place⟩ := parsing.walk
  unfold HttpConn.stopped
  rw [place]
  exact parsing.skip ahead plain

theorem pending_stopped (parsing : conn.Parsing) : conn.stopped.pending = conn.lineEnd := by
  obtain ⟨front, ahead, -, place⟩ := parsing.walk
  unfold HttpConn.stopped
  rw [place, pending_advance, ahead, List.drop_left]

theorem lineEnd_stopped (parsing : conn.Parsing) : conn.stopped.lineEnd = conn.lineEnd := by
  obtain ⟨front, ahead, plain, -⟩ := parsing.walk
  have rest : conn.pending.dropWhile (fun byte => byte ∉ crlf) =
      conn.lineEnd.dropWhile fun byte => byte ∉ crlf := by
    rw [ahead, dropWhile_plain plain]
  rw [lineEnd, parsing.pending_stopped]
  exact rest.symm

theorem endIdx_add (parsing : conn.Parsing) : conn.endIdx + conn.lineEnd.length = conn.readIdx := by
  obtain ⟨front, ahead, -, place⟩ := parsing.walk
  have length := parsing.length_pending
  rw [ahead, List.length_append] at length
  omega

theorem byte (parsing : conn.Parsing) {position : Nat} {byte : UInt8}
    (found : conn.lineEnd[position]? = some byte) :
    conn.readBuf.bytes[conn.endIdx + position]? = some byte := by
  have received := received_pending (Nat.le_of_lt parsing.read)
  apply received.byte
  have here := parsing.pending_stopped
  rw [← here] at found
  unfold pending HttpConn.stopped at found
  rw [List.getElem?_drop] at found
  exact found

theorem halts (parsing : conn.Parsing) {byte : UInt8} {rest : Text}
    (standing : conn.lineEnd = byte :: rest) (ends : EndsLine byte)
    (improper : ¬ crlf <+: conn.lineEnd) : conn.stopped.Halts byte := by
  have length := parsing.endIdx_add
  rw [standing, List.length_cons] at length
  have first : conn.lineEnd[0]? = some byte := by
    rw [standing]
    rfl
  have found := parsing.byte first
  constructor
  · exact ends
  · change conn.endIdx < conn.readIdx
    omega
  · exact found
  · rintro rfl
    cases rest with
    | nil => exact .inl length
    | cons next rest =>
        right
        have second : conn.lineEnd[1]? = some next := by
          rw [standing]
          rfl
        refine ⟨next, parsing.byte second, ?_⟩
        rintro rfl
        exact improper ⟨rest, standing.symm⟩
  · rintro rfl
    rcases Nat.eq_zero_or_pos conn.endIdx with start | positive
    · refine ⟨lineFeed, ?_, by decide⟩
      change conn.readBuf.bytes[conn.endIdx - 1]? = some lineFeed
      rw [start] at found ⊢
      exact found
    · have inside : conn.endIdx - 1 < conn.readBuf.bytes.length := by
        have read := parsing.read
        rw [conn.readBuf.length_bytes]
        omega
      refine ⟨conn.readBuf.bytes[conn.endIdx - 1], List.getElem?_eq_getElem inside, fun isReturn => ?_⟩
      exact parsing.stopped.passed positive
        ((List.getElem?_eq_getElem inside).trans (congrArg some isReturn))

end Parsing

/-- Where the byte next to the line end decides, `parse_line` does not wait. -/
theorem decided_not_open {condition : Prop} [Decidable condition] {passed halted : HttpConn}
    {status : LineStatus}
    (done : (if condition then Except.ok (passed, .lineOk) else Except.ok (halted, .lineBad)) =
      (Except.ok (conn', status) : Except Fault (HttpConn × LineStatus))) : status ≠ .lineOpen := by
  rintro rfl
  split at done
  · have same : LineStatus.lineOk = .lineOpen := congrArg Prod.snd (Except.ok.inj done)
    cases same
  · have same : LineStatus.lineBad = .lineOpen := congrArg Prod.snd (Except.ok.inj done)
    cases same

theorem Halts.status {byte : UInt8} (halts : conn.Halts byte) {rounds : Nat} {status : LineStatus}
    (done : conn.parseLineLoop (rounds + 1) = .ok (conn', status)) :
    status = .lineOpen ↔ byte = carriageReturn ∧ conn.checkedIdx + 1 = conn.readIdx := by
  rw [parseLineLoop_stop (Buffer.load_eq halts.found) halts.ends] at done
  by_cases isReturn : byte = carriageReturn
  · rw [if_pos isReturn] at done
    by_cases last : conn.checkedIdx + 1 = conn.readIdx
    · rw [if_pos last] at done
      cases done
      exact iff_of_true rfl ⟨isReturn, last⟩
    · rw [if_neg last] at done
      obtain ⟨next, -, done⟩ := bind_eq_ok_iff.mp done
      exact iff_of_false (decided_not_open done) fun both => last both.2
  · rw [if_neg isReturn] at done
    obtain ⟨previous, -, done⟩ := bind_eq_ok_iff.mp done
    exact iff_of_false (decided_not_open done) fun both => isReturn both.1

/-- `parse_line` finds a CRLF, or it stops at the line end. -/
theorem Parsing.parseLine_stops (parsing : conn.Parsing) :
    crlf <+: conn.lineEnd ∧ conn.parseLine = .ok (conn.stopped.endLine, .lineOk) ∨
      ¬ crlf <+: conn.lineEnd ∧ ∃ status, status ≠ .lineOk ∧
        conn.parseLine = .ok (conn.stopped, status) ∧ (status = .lineOpen ↔ conn.Waits) := by
  have holds := received_pending (Nat.le_of_lt parsing.read)
  have length := holds.readIdx
  unfold Waits
  rcases conn.lineEnd_cases with ⟨noEnd, plain⟩ | ⟨front, byte, rest, ahead, plain, ends, standing⟩
  · right
    have opened := holds.parseLine_open plain (length ▸ parsing.checked)
    have place : conn.endIdx = (conn.readBuf.bytes.take conn.readIdx).length := by
      rw [← length, endIdx, noEnd]
      rfl
    rw [← place] at opened
    refine ⟨?_, .lineOpen, by decide, opened, iff_of_true rfl (.inl noEnd)⟩
    rw [noEnd]
    decide
  · obtain ⟨front', ahead', -, place⟩ := parsing.walk
    have same : front = front' := by
      rw [ahead', standing] at ahead
      exact (List.append_cancel_right ahead).symm
    subst same
    by_cases proper : crlf <+: conn.lineEnd
    · left
      have heads : byte = carriageReturn ∧ rest.head? = some lineFeed := by
        obtain ⟨behind, split⟩ := proper
        rw [standing] at split
        cases split
        exact ⟨rfl, rfl⟩
      obtain ⟨rfl, feed⟩ := heads
      cases rest with
      | nil => cases feed
      | cons next rest =>
          cases feed
          have parsed := holds.parseLine_stop ahead plain (.inl rfl)
          refine ⟨proper, parsed.trans ?_⟩
          unfold HttpConn.stopped
          rw [place]
          rfl
    · right
      have halts := parsing.halts standing ends proper
      have walked := holds.parseLine_skip ahead plain
      obtain ⟨status, notOk, halted⟩ := halts.parseLineLoop rest.length
      unfold HttpConn.stopped at halted
      rw [place] at halted
      have parsed := walked.trans halted
      rw [← place] at parsed
      refine ⟨proper, status, notOk, parsed, ?_⟩
      rw [← place] at halted
      rw [halts.status halted, standing]
      have last := parsing.endIdx_add
      rw [standing, List.length_cons] at last
      have position : conn.stopped.checkedIdx = conn.endIdx := rfl
      have received : conn.stopped.readIdx = conn.readIdx := rfl
      rw [position, received]
      constructor
      · rintro ⟨rfl, behind⟩
        right
        rw [List.length_eq_zero_iff.mp (by omega : rest.length = 0)]
      · rintro (noEnd | alone)
        · cases noEnd
        · cases alone
          exact ⟨rfl, last⟩

variable (conn) in
theorem lineEnd_nil (passed : conn.readIdx ≤ conn.checkedIdx) : conn.lineEnd = [] := by
  have nothing : conn.pending = [] := by
    unfold pending
    apply List.drop_eq_nil_of_le
    rw [List.length_take]
    exact Nat.le_trans (Nat.min_le_left _ _) passed
  unfold lineEnd
  rw [nothing]
  rfl

/-! ## The body -/

/-- At this index the body is complete, or more has to come and its length adds up. -/
def BodyReturns (conn : HttpConn) (index : Nat) : Prop :=
  conn.contentLength + index ≤ conn.readIdx ∨
    conn.Waits ∧ conn.contentLength + index ≤ 2147483647

theorem handleLine_overflow (state : conn.checkState = .content)
    (overflow : 2147483647 < conn.contentLength + conn.checkedIdx) (lineStatus : LineStatus) :
    conn.handleLine lineStatus = .error .signedOverflow := by
  have here : conn.nextLine.checkState = .content := state
  have sum : checkInt (conn.nextLine.contentLength + conn.nextLine.checkedIdx) =
      .error .signedOverflow := if_neg fun both => absurd both.2 (Int.not_le.mpr overflow)
  unfold handleLine parseContent
  simp only [here, sum, error_bind]

theorem handleLine_complete (parsing : conn.Parsing) (state : conn.checkState = .content)
    (enough : conn.contentLength + conn.checkedIdx ≤ conn.readIdx) (lineStatus : LineStatus) :
    ∃ conn', conn.handleLine lineStatus = .ok (conn', .leave .doRequest) := by
  have here : conn.nextLine.checkState = .content := state
  have read : (conn.readIdx : Int) < readBufferSize := Int.ofNat_lt.mpr parsing.read
  have size : (readBufferSize : Int) = 2048 := rfl
  have low := parsing.range.1
  have adds : checkInt (conn.contentLength + conn.checkedIdx) =
      .ok (conn.contentLength + conn.checkedIdx) := checkInt_eq_ok (by omega) (by omega)
  have sum : checkInt (conn.nextLine.contentLength + conn.nextLine.checkedIdx) =
      .ok (conn.contentLength + conn.checkedIdx) := adds
  have all : (conn.nextLine.readIdx : Int) ≥ conn.contentLength + conn.checkedIdx := enough
  unfold handleLine parseContent
  simp only [here, sum, ok_bind, if_pos all, pure_eq_ok, if_true]
  exact ⟨_, rfl⟩

theorem handleLine_short (state : conn.checkState = .content)
    (short : conn.readIdx < conn.contentLength + conn.checkedIdx)
    (fits : conn.contentLength + conn.checkedIdx ≤ 2147483647) (lineStatus : LineStatus) :
    conn.handleLine lineStatus = .ok (conn.nextLine, .next .lineOpen) := by
  have here : conn.nextLine.checkState = .content := state
  have adds : checkInt (conn.contentLength + conn.checkedIdx) =
      .ok (conn.contentLength + conn.checkedIdx) := checkInt_eq_ok (by omega) fits
  have sum : checkInt (conn.nextLine.contentLength + conn.nextLine.checkedIdx) =
      .ok (conn.contentLength + conn.checkedIdx) := adds
  have more : ¬ (conn.nextLine.readIdx : Int) ≥ conn.contentLength + conn.checkedIdx :=
    Int.not_le.mpr short
  unfold handleLine parseContent
  simp only [here, sum, ok_bind, if_neg more, pure_eq_ok]
  rfl

/-- The rest of the body is missing, and `parse_line` has stopped for good. -/
structure ContentStuck (conn : HttpConn) (lineStatus : LineStatus) : Prop where
  waiting : lineStatus = .lineOpen
  stays : ∃ moved status byte, conn.parseLine = .ok (moved, status) ∧ status ≠ .lineOpen ∧
    moved.checkState = .content ∧ (moved.readIdx : Int) < moved.contentLength + moved.checkedIdx ∧
    moved.Halts byte ∧ ¬ (byte = carriageReturn ∧ moved.checkedIdx + 1 = moved.readIdx)

theorem ContentStuck.round (stuck : conn.ContentStuck lineStatus) :
    (∃ fault, conn.round lineStatus = .error fault) ∨
      ∃ conn' lineStatus', conn.round lineStatus = .ok (conn', .next lineStatus') ∧
        conn'.ContentStuck lineStatus' := by
  obtain ⟨rfl, moved, status, byte, parsed, notOpen, state, short, halts, notLast⟩ := stuck
  have handled : conn.round .lineOpen = moved.handleLine .lineOpen := by
    unfold HttpConn.round
    rw [goesOn_open parsed, decide_eq_true notOpen]
    rfl
  rw [handled]
  rcases Int.lt_or_le 2147483647 (moved.contentLength + moved.checkedIdx) with overflow | fits
  · exact .inl ⟨_, handleLine_overflow state overflow _⟩
  · refine .inr ⟨_, _, handleLine_short state short fits _, rfl, ?_⟩
    have again : moved.nextLine.Halts byte :=
      ⟨halts.ends, halts.inside, halts.found, halts.behind, halts.before⟩
    obtain ⟨status', notOk, halted⟩ := again.parseLine
    have left : moved.nextLine.readIdx - moved.nextLine.checkedIdx =
        moved.nextLine.readIdx - moved.nextLine.checkedIdx - 1 + 1 := by
      have inside := again.inside
      omega
    unfold HttpConn.parseLine at halted
    rw [left] at halted
    have notOpen' : status' ≠ .lineOpen := fun isOpen =>
      notLast ((again.status halted).mp isOpen)
    rw [← left] at halted
    exact ⟨moved.nextLine, status', byte, halted, notOpen', state, short, again, notLast⟩

theorem ContentStuck.not_returns (stuck : conn.ContentStuck lineStatus) :
    ¬ conn.LoopReturns lineStatus :=
  not_loopReturns_of_stuck (fun _ _ stuck => stuck.round) stuck

theorem stopped_frame (conn : HttpConn) :
    conn.stopped.endLine = { conn with
      readBuf := conn.stopped.endLine.readBuf
      stray := conn.stopped.endLine.stray
      checkedIdx := conn.endIdx + 1 } :=
  endLine_frame

theorem Parsing.halts_behind (parsing : conn.Parsing) (proper : crlf <+: conn.lineEnd) :
    conn.stopped.endLine.Halts lineFeed := by
  obtain ⟨rest, split⟩ := proper
  have length := parsing.endIdx_add
  rw [← split] at length
  have two : (crlf ++ rest).length = rest.length + 2 := rfl
  have second : conn.lineEnd[1]? = some lineFeed := by
    rw [← split]
    rfl
  have feed := parsing.byte second
  have read := parsing.read
  have here := endLine_bytes_here conn.stopped (by
    change conn.endIdx < readBufferSize
    omega)
  have there : conn.stopped.endLine.readBuf.bytes[conn.endIdx + 1]? =
      conn.stopped.readBuf.bytes[conn.endIdx + 1]? :=
    endLine_bytes_other (by change conn.endIdx + 1 + 1 ≠ conn.endIdx; omega)
      (by change conn.endIdx + 1 ≠ conn.endIdx; omega)
  have frame := conn.stopped_frame
  have checkedIdx : conn.stopped.endLine.checkedIdx = conn.endIdx + 1 := by rw [frame]
  have readIdx : conn.stopped.endLine.readIdx = conn.readIdx := by rw [frame]
  constructor
  · exact .inr rfl
  · rw [checkedIdx, readIdx]
    omega
  · rw [checkedIdx, there]
    exact feed
  · intro isReturn
    exact absurd isReturn (by decide)
  · intro _
    rw [checkedIdx]
    exact ⟨0, here, by decide⟩

theorem Parsing.checked_le_endIdx (parsing : conn.Parsing) : conn.checkedIdx ≤ conn.endIdx := by
  obtain ⟨front, -, -, place⟩ := parsing.walk
  rw [place]
  exact Nat.le_add_right _ _

theorem not_waits_of_crlf (proper : crlf <+: conn.lineEnd) : ¬ conn.Waits := by
  obtain ⟨rest, split⟩ := proper
  rintro (noEnd | alone)
  · rw [noEnd] at split
    cases split
  · rw [alone] at split
    cases split

/-- Where `parse_line` does not have to wait, more bytes do not help. -/
theorem Parsing.halts_of_not_waits (parsing : conn.Parsing) (improper : ¬ crlf <+: conn.lineEnd)
    (decided : ¬ conn.Waits) : ∃ byte, conn.stopped.Halts byte ∧
      ¬ (byte = carriageReturn ∧ conn.stopped.checkedIdx + 1 = conn.stopped.readIdx) := by
  rcases conn.lineEnd_cases with ⟨none, -⟩ | ⟨front, byte, rest, -, -, ends, standing⟩
  · exact absurd (.inl none) decided
  · refine ⟨byte, parsing.halts standing ends improper, ?_⟩
    rintro ⟨rfl, last⟩
    have length := parsing.endIdx_add
    rw [standing, List.length_cons] at length
    have position : conn.endIdx + 1 = conn.readIdx := last
    apply decided
    right
    rw [standing, List.length_eq_zero_iff.mp (by omega : rest.length = 0)]

/-- Once the body is known to be incomplete, the loop is left only to wait. -/
theorem content_open_iff (parsing : conn.Parsing) (state : conn.checkState = .content)
    (short : conn.readIdx < conn.contentLength + conn.checkedIdx) :
    conn.LoopReturns .lineOpen ↔ conn.Waits := by
  have behind := parsing.checked_le_endIdx
  rcases parsing.parseLine_stops with ⟨proper, parsed⟩ | ⟨improper, status, notOk, parsed, opens⟩
  · refine iff_of_false (ContentStuck.not_returns ⟨rfl, _, _, lineFeed, parsed, by decide, ?_, ?_,
      parsing.halts_behind proper, fun both => absurd both.1 (by decide)⟩) (not_waits_of_crlf proper)
    · rw [stopped_frame]
      exact state
    · rw [stopped_frame]
      change (conn.readIdx : Int) < conn.contentLength + ((conn.endIdx + 1 : Nat) : Int)
      omega
  · by_cases waits : conn.Waits
    · have left : conn.round .lineOpen = .ok (conn.stopped, .leave (.code .noRequest)) := by
        unfold round
        rw [goesOn_open parsed, opens.mpr waits]
        rfl
      exact iff_of_true (loopReturns_leave left) waits
    · have notOpen : status ≠ .lineOpen := fun isOpen => waits (opens.mp isOpen)
      obtain ⟨byte, halts, notLast⟩ := parsing.halts_of_not_waits improper waits
      refine iff_of_false (ContentStuck.not_returns ⟨rfl, _, _, byte, parsed, notOpen, state, ?_,
        halts, notLast⟩) waits
      change (conn.readIdx : Int) < conn.contentLength + (conn.endIdx : Int)
      omega

theorem content_returns_iff (parsing : conn.Parsing) (state : conn.checkState = .content) :
    conn.LoopReturns .lineOk ↔ conn.BodyReturns conn.checkedIdx := by
  have entered : conn.round .lineOk = conn.handleLine .lineOk := by
    unfold round goesOn
    rw [if_pos ⟨state, rfl⟩]
    rfl
  unfold BodyReturns
  rcases Int.lt_or_le conn.readIdx (conn.contentLength + conn.checkedIdx) with short | enough
  · rcases Int.lt_or_le 2147483647 (conn.contentLength + conn.checkedIdx) with overflow | fits
    · rw [handleLine_overflow state overflow] at entered
      refine iff_of_false (not_loopReturns_fault entered) ?_
      rintro (enough | ⟨-, fits⟩)
      · omega
      · omega
    · rw [handleLine_short state short fits] at entered
      rw [loopReturns_next entered, content_open_iff parsing.nextLine state short]
      constructor
      · exact fun waits => .inr ⟨waits, fits⟩
      · rintro (enough | ⟨waits, -⟩)
        · omega
        · exact waits
  · obtain ⟨conn', left⟩ := handleLine_complete parsing state enough .lineOk
    exact iff_of_true (loopReturns_leave (entered.trans left)) (.inl enough)

/-! ## The headers -/

theorem round_enters {status : LineStatus} (notContent : conn.checkState ≠ .content)
    (parsed : conn.parseLine = .ok (conn', status)) (notOk : status ≠ .lineOk) :
    conn.round .lineOk = conn'.handleLine .lineOk := by
  unfold round
  rw [goesOn_of_parseLine notContent parsed, decide_eq_true notOk]
  rfl

theorem Parsing.round_stopped (parsing : conn.Parsing) (notContent : conn.checkState ≠ .content)
    (improper : ¬ crlf <+: conn.lineEnd) :
    conn.round .lineOk = conn.stopped.handleLine .lineOk := by
  rcases parsing.parseLine_stops with ⟨proper, -⟩ | ⟨-, status, notOk, parsed, -⟩
  · exact absurd proper improper
  · exact round_enters notContent parsed notOk

theorem header_empty_iff (parsing : conn.Parsing) (state : conn.checkState = .header)
    (improper : ¬ crlf <+: conn.lineEnd) (empty : conn.readBuf.Holds conn.startLine []) :
    conn.LoopReturns .lineOk ↔ conn.BodyReturns conn.endIdx := by
  have entered := parsing.round_stopped (by rw [state]; decide) improper
  have length : conn.stopped.nextLine.contentLength = conn.contentLength := rfl
  have line : conn.stopped.nextLine.readBuf.text conn.startLine = .ok [] := empty.text_eq
  have parsed : conn.stopped.nextLine.parseHeaders conn.startLine =
      if conn.contentLength ≠ 0 then
        .ok ({ conn.stopped.nextLine with checkState := .content }, .noRequest)
      else .ok (conn.stopped.nextLine, .getRequest) := by
    unfold parseHeaders
    simp only [line, ok_bind, if_true, length]
    rfl
  by_cases body : conn.contentLength = 0
  · rw [if_neg (not_not_intro body)] at parsed
    have handled : conn.stopped.handleLine .lineOk = _ := handleLine_header state parsed
    have place := parsing.endIdx_add
    exact iff_of_true (loopReturns_leave (entered.trans handled)) (.inl (by omega))
  · rw [if_pos body] at parsed
    have handled : conn.stopped.handleLine .lineOk = _ := handleLine_header state parsed
    let content : HttpConn := { conn.stopped.nextLine with checkState := .content }
    have started : content.Parsing := (parsing.stopped.nextLine.parseHeaders state _ _ parsed).1
    rw [loopReturns_next (entered.trans handled)]
    have waits : content.Waits ↔ conn.Waits := by
      have same := parsing.lineEnd_stopped
      have here : content.lineEnd = conn.stopped.lineEnd := rfl
      unfold Waits
      rw [here, same]
    refine (content_returns_iff started rfl).trans ?_
    unfold BodyReturns
    rw [waits]
    rfl

/-- Behind everything that has been received there is an empty line. -/
theorem header_end_iff (parsing : conn.Parsing) (state : conn.checkState = .header)
    (start : conn.startLine = conn.readIdx) (checked : conn.checkedIdx = conn.readIdx) :
    conn.LoopReturns .lineOk ↔ conn.contentLength + conn.readIdx ≤ 2147483647 := by
  have noEnd := lineEnd_nil conn (Nat.le_of_eq checked.symm)
  have empty : conn.readBuf.Holds conn.startLine [] := by
    rw [start]
    exact Buffer.holds_nil parsing.nul
  have place : conn.endIdx = conn.readIdx := by
    rw [endIdx, noEnd]
    rfl
  have read : (conn.readIdx : Int) < readBufferSize := Int.ofNat_lt.mpr parsing.read
  have size : (readBufferSize : Int) = 2048 := rfl
  rw [header_empty_iff parsing state (by rw [noEnd]; decide) empty, place]
  constructor
  · rintro (enough | ⟨-, fits⟩)
    · omega
    · exact fits
  · exact fun fits => .inr ⟨.inl noEnd, fits⟩

theorem header_spins {byte : UInt8} (parsing : conn.Parsing) (state : conn.checkState = .header)
    (halts : conn.Halts byte) (start : conn.startLine = conn.checkedIdx) :
    ¬ conn.LoopReturns .lineOk := by
  obtain ⟨line, text⟩ := Buffer.text_of_nul halts.found (Halts.notNul halts.ends) parsing.checked
    parsing.nul
  rintro ⟨fuel, result, done⟩
  rw [processReadLoop_spins halts state start text fuel] at done
  cases done

theorem requestLine_returns_iff (parsing : conn.Parsing) (state : conn.checkState = .requestLine)
    (improper : ¬ crlf <+: conn.lineEnd) {line : Text}
    (holds : conn.readBuf.Holds conn.startLine line) :
    conn.LoopReturns .lineOk ↔ conn.lineEnd = [] ∨ ¬ ∃ path, RequestLineOf line path := by
  have entered := parsing.round_stopped (by rw [state]; decide) improper
  have text : conn.stopped.nextLine.readBuf.Holds conn.startLine line := holds
  have inside : conn.startLine ≤ conn.stopped.nextLine.readIdx :=
    Nat.le_trans parsing.started parsing.checked
  have kept := parsing.stopped.nextLine.parseRequestLine state inside
  rcases requestLine_cases text with
    ⟨path, accepted, url, grammar, parsed, frame, header, -, -⟩ | ⟨noLine, rejected, parsed, -, -⟩
  · have handled : conn.stopped.handleLine .lineOk = _ :=
      handleLine_requestLine conn.stopped state parsed
    rw [loopReturns_next (entered.trans handled)]
    have behind : accepted.Parsing := kept _ parsed
    have startLine : accepted.startLine = conn.endIdx := by rw [frame.others]; rfl
    have checkedIdx : accepted.checkedIdx = conn.endIdx := by rw [frame.others]; rfl
    have readIdx : accepted.readIdx = conn.readIdx := by rw [frame.others]; rfl
    rcases conn.lineEnd_cases with ⟨noEnd, -⟩ | ⟨front, byte, rest, -, -, ends, standing⟩
    · have place : conn.endIdx = conn.readIdx := by
        rw [endIdx, noEnd]
        rfl
      have length : accepted.contentLength = 0 := by
        rw [frame.others]
        exact parsing.length state
      have read : (conn.readIdx : Int) < readBufferSize := Int.ofNat_lt.mpr parsing.read
      have size : (readBufferSize : Int) = 2048 := rfl
      rw [header_end_iff behind header (by rw [startLine, readIdx, place])
        (by rw [checkedIdx, readIdx, place]), length, readIdx]
      exact iff_of_true (by omega) (.inl noEnd)
    · have halts := parsing.halts standing ends improper
      have onLine : conn.stopped.nextLine.Halts byte :=
        ⟨halts.ends, halts.inside, halts.found, halts.behind, halts.before⟩
      refine iff_of_false (header_spins behind header (onLine.frame frame)
        (startLine.trans checkedIdx.symm)) ?_
      rintro (noEnd | noLine)
      · rw [noEnd] at standing
        cases standing
      · exact noLine ⟨path, grammar⟩
  · have handled : conn.stopped.handleLine .lineOk = _ :=
      handleLine_requestLine conn.stopped state parsed
    exact iff_of_true (loopReturns_leave (entered.trans handled)) (.inr noLine)

/-! ## The call -/

end HttpConn

end HPLinuxServer.Http
