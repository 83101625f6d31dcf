import HPLinuxServer.Http.ProcessReadProperties

/-!
# Splitting the buffer into lines

A line is to end where its CRLF begins, with both bytes made NUL and passed. `parse_line`
does that when it is shown the LF alone. When it stands at the CR it takes the byte in
front of it and the CR, and the LF is left to be met by the next call.
-/

set_option autoImplicit false

namespace HPLinuxServer.Http

open Memory

namespace HttpConn

/-- The bytes that have been received and not been checked. -/
def pending (conn : HttpConn) : Text :=
  (conn.readBuf.bytes.take conn.readIdx).drop conn.checkedIdx

/-- A CR and an LF behind it, at `index` and `index + 1`. -/
def CrlfAt (conn : HttpConn) (index : Nat) : Prop :=
  index + 1 < conn.readIdx ∧ conn.readBuf.bytes[index]? = some carriageReturn ∧
    conn.readBuf.bytes[index + 1]? = some lineFeed

/-- The line that is being checked ends with the CRLF at `index`: it is the first one, or
its CR was the last byte that was seen before. -/
def EndsAt (conn : HttpConn) (index : Nat) : Prop :=
  conn.CrlfAt index ∧
    (index + 1 = conn.checkedIdx ∨ conn.checkedIdx ≤ index ∧
      ∀ earlier, conn.checkedIdx ≤ earlier → earlier < index → ¬ conn.CrlfAt earlier)

/-- One call of `parse_line` cuts off a line and does no damage. -/
structure SplitsLine (conn : HttpConn) : Prop where
  ok : ∀ conn', conn.parseLine = .ok (conn', .lineOk) →
    ∃ index, conn.EndsAt index ∧ conn'.checkedIdx = index + 2 ∧
      conn'.readBuf = (conn.readBuf.store index 0).store (index + 1) 0
  other : ∀ conn' status, conn.parseLine = .ok (conn', status) → status ≠ .lineOk →
    conn'.readBuf = conn.readBuf
  confined : conn.AccessesOnly (fun index => index < conn.readIdx) parseLine

/-- The lines that `parse_line` and `get_line` give, as long as they give one. -/
def splitLines (conn : HttpConn) : Nat → Except Fault (List Text)
  | 0 => .error .outOfFuel
  | rounds + 1 => do
      let (conn, status) ← conn.parseLine
      if status = .lineOk then
        let line ← conn.readBuf.text conn.startLine
        let lines ← conn.nextLine.splitLines rounds
        return line :: lines
      else return []

variable {conn : HttpConn} {received : Text}

theorem received_pending (inside : conn.readIdx ≤ readBufferSize) :
    conn.Received (conn.readBuf.bytes.take conn.readIdx) := by
  refine ⟨List.take_prefix _ _, ?_⟩
  rw [List.length_take, conn.readBuf.length_bytes, Nat.min_eq_left inside]

/-- What `parse_line` does at the first byte that ends a line. -/
theorem Received.parseLine_stop (holds : conn.Received received) {front rest : Text} {byte : UInt8}
    (ahead : received.drop conn.checkedIdx = front ++ byte :: rest) (plain : OneLine front)
    (ends : EndsLine byte) :
    conn.parseLine =
      let stopped := { conn with checkedIdx := conn.checkedIdx + front.length }
      if byte = carriageReturn then
        match rest with
        | [] => .ok (stopped, .lineOpen)
        | next :: _ => if next = lineFeed then .ok (stopped.endLine, .lineOk) else .ok (stopped, .lineBad)
      else if stopped.checkedIdx > 1 ∧ received[stopped.checkedIdx - 1]? = some carriageReturn then
        .ok (stopped.endLine, .lineOk)
      else .ok (stopped, .lineBad) := by
  have moved : { conn with checkedIdx := conn.checkedIdx + front.length }.Received received :=
    ⟨holds.bytes, holds.readIdx⟩
  have here : received.drop (conn.checkedIdx + front.length) = byte :: rest := by
    rw [← List.drop_drop, ahead, List.drop_left]
  rw [holds.parseLine_skip ahead plain]
  dsimp only
  by_cases isReturn : byte = carriageReturn
  · subst isReturn
    rw [if_pos rfl]
    cases rest with
    | nil => exact moved.parseLineLoop_last here _
    | cons next rest => exact moved.parseLineLoop_return here _
  · rw [if_neg isReturn]
    obtain ⟨found, -, more⟩ := moved.ahead here
    have before : conn.checkedIdx + front.length - 1 < received.length := by
      rw [moved.readIdx] at more
      dsimp only at more
      omega
    have previous := List.getElem?_eq_getElem before
    rw [parseLineLoop_stop found ends, if_neg isReturn, moved.load previous, ok_bind, previous]
    simp only [Option.some.injEq]

/-- The first line end in the text is a CRLF. -/
def MeetsCrlf (text : Text) : Prop :=
  ∃ front rest, text = front ++ carriageReturn :: lineFeed :: rest ∧ OneLine front

/-- Where it meets no CRLF, the call leaves the buffer alone or is at the LF of one. -/
theorem parseLine_outcome {checkedIdx : Nat} (inside : checkedIdx ≤ received.length)
    (noCrlf : ¬ MeetsCrlf (received.drop checkedIdx)) :
    (∃ index status, status ≠ .lineOk ∧ ∀ conn : HttpConn, conn.Received received →
        conn.checkedIdx = checkedIdx →
        conn.parseLine = .ok ({ conn with checkedIdx := index }, status)) ∨
      received[checkedIdx]? = some lineFeed ∧ 1 < checkedIdx ∧
        received[checkedIdx - 1]? = some carriageReturn ∧ ∀ conn : HttpConn,
          conn.Received received → conn.checkedIdx = checkedIdx →
          conn.parseLine = .ok (conn.endLine, .lineOk) := by
  rcases cut_line (received.drop checkedIdx) with plain | ⟨front, byte, rest, ahead, plain, ends⟩
  · left
    refine ⟨received.length, .lineOpen, by decide, ?_⟩
    rintro conn holds rfl
    exact holds.parseLine_open plain inside
  · by_cases isReturn : byte = carriageReturn
    · subst isReturn
      left
      cases rest with
      | nil =>
          refine ⟨checkedIdx + front.length, .lineOpen, by decide, ?_⟩
          rintro conn holds rfl
          rw [holds.parseLine_stop ahead plain ends]
          exact if_pos rfl
      | cons next rest =>
          have other : next ≠ lineFeed := by
            rintro rfl
            exact noCrlf ⟨front, rest, ahead, plain⟩
          refine ⟨checkedIdx + front.length, .lineBad, by decide, ?_⟩
          rintro conn holds rfl
          rw [holds.parseLine_stop ahead plain ends]
          exact (if_pos rfl).trans (if_neg other)
    · by_cases completes : checkedIdx + front.length > 1 ∧
          received[checkedIdx + front.length - 1]? = some carriageReturn
      · right
        obtain rfl := ends.resolve_left isReturn
        rcases List.eq_nil_or_concat front with rfl | ⟨init, last, rfl⟩
        · have here := congrArg List.head? ahead
          rw [List.head?_drop] at here
          refine ⟨here, completes.1, completes.2, ?_⟩
          rintro conn holds rfl
          rw [holds.parseLine_stop ahead plain ends]
          exact (if_neg isReturn).trans (if_pos completes)
        · rw [List.concat_eq_append] at completes plain ahead
          have found := completes.2
          have position : checkedIdx + (init ++ [last]).length - 1 = checkedIdx + init.length := by
            simp
          rw [position, ← List.getElem?_drop, ahead] at found
          simp at found
          exact absurd found (plain last (by simp)).1
      · left
        refine ⟨checkedIdx + front.length, .lineBad, by decide, ?_⟩
        rintro conn holds rfl
        rw [holds.parseLine_stop ahead plain ends]
        exact (if_neg isReturn).trans (if_neg completes)

variable (conn) in
theorem endLine_eq (positive : 0 < conn.checkedIdx) (inside : conn.checkedIdx < readBufferSize) :
    conn.endLine = { conn with
      readBuf := (conn.readBuf.store (conn.checkedIdx - 1) 0).store conn.checkedIdx 0
      checkedIdx := conn.checkedIdx + 1 } := by
  have before : (conn.checkedIdx : Int) - 1 = ((conn.checkedIdx - 1 : Nat) : Int) := by omega
  unfold endLine
  rw [before, storeRead_inside (by omega)]
  dsimp only
  rw [storeRead_inside inside]

theorem received_agrees (read : conn.readIdx ≤ readBufferSize) {other : Buffer readBufferSize}
    (agrees : conn.readBuf.AgreesOn (fun index => index < conn.readIdx) other) :
    { conn with readBuf := other }.Received (conn.readBuf.bytes.take conn.readIdx) := by
  refine ⟨?_, (received_pending read).readIdx⟩
  have same : other.bytes.take conn.readIdx = conn.readBuf.bytes.take conn.readIdx := by
    apply List.ext_getElem?
    intro index
    rw [List.getElem?_take, List.getElem?_take]
    split
    · next inside => exact agrees index inside
    · rfl
  rw [← same]
  exact List.take_prefix _ _

theorem splitsLine_of_noCrlf (checked : conn.checkedIdx ≤ conn.readIdx)
    (read : conn.readIdx ≤ readBufferSize) (noCrlf : ¬ MeetsCrlf conn.pending) :
    conn.SplitsLine := by
  have holds := received_pending read
  have length := holds.readIdx
  rcases parseLine_outcome (length ▸ checked) noCrlf with
    ⟨index, status, notOk, parsed⟩ | ⟨feed, positive, isReturn, parsed⟩
  · have here := parsed conn holds rfl
    constructor
    · intro conn' done
      rw [here] at done
      cases done
      exact absurd rfl notOk
    · intro conn' status' done _
      rw [here] at done
      cases done
      rfl
    · intro other agrees
      have there := parsed { conn with readBuf := other } (received_agrees read agrees) rfl
      exact ⟨_, _, _, here, there, rfl, .refl agrees⟩
  · have here := parsed conn holds rfl
    have inside : conn.checkedIdx < conn.readIdx := by
      rw [length]
      exact (List.getElem?_eq_some_iff.mp feed).1
    have started : 0 < conn.checkedIdx := by omega
    have stored : conn.checkedIdx < readBufferSize := by omega
    have cut := conn.endLine_eq started stored
    have behind : conn.checkedIdx - 1 + 1 = conn.checkedIdx := by omega
    rw [cut] at here
    constructor
    · intro conn' done
      rw [here] at done
      cases done
      refine ⟨conn.checkedIdx - 1, ⟨⟨by omega, holds.byte isReturn, ?_⟩, .inl behind⟩, ?_, ?_⟩
      · rw [behind]
        exact holds.byte feed
      · dsimp only
        omega
      · rw [behind]
    · intro conn' status done notOk
      rw [here] at done
      cases done
      exact absurd rfl notOk
    · intro other agrees
      have there := parsed { conn with readBuf := other } (received_agrees read agrees) rfl
      have cutThere := endLine_eq { conn with readBuf := other } started stored
      rw [cutThere] at there
      have first := Buffer.Confined.store agrees
        (by omega : conn.checkedIdx - 1 < conn.readIdx) 0
      have second := Buffer.Confined.store first.agrees inside 0
      exact ⟨_, _, _, here, there, rfl, first.trans second⟩

theorem not_splitsLine_of_crlf (read : conn.readIdx ≤ readBufferSize)
    (crlf : MeetsCrlf conn.pending) : ¬ conn.SplitsLine := by
  intro splits
  have holds := received_pending read
  obtain ⟨front, rest, ahead, plain⟩ := crlf
  have cut := holds.parseLine_stop ahead plain (.inl rfl)
  obtain ⟨index, ⟨⟨-, -, feed⟩, -⟩, passed, -⟩ := splits.ok _ cut
  have here : (conn.readBuf.bytes.take conn.readIdx)[conn.checkedIdx + front.length]? =
      some carriageReturn := by
    have first := congrArg (fun text : Text => text[front.length]?) ahead
    rw [pending, List.getElem?_drop, List.getElem?_append_right (Nat.le_refl _), Nat.sub_self] at first
    exact first
  have found := holds.byte here
  rw [endLine_frame] at passed
  have position : index + 1 = conn.checkedIdx + front.length := by
    dsimp only at passed
    omega
  rw [position, found] at feed
  exact absurd (Option.some.inj feed) (by decide)

/-! ## One line after the other -/

@[simp] theorem nextLine_readBuf (conn : HttpConn) : conn.nextLine.readBuf = conn.readBuf := rfl

theorem splitLines_more {rounds : Nat} {lines : List Text}
    (done : conn.splitLines rounds = .ok lines) : conn.splitLines (rounds + 1) = .ok lines := by
  induction rounds generalizing conn lines with
  | zero => cases done
  | succ rounds ih =>
      rw [splitLines] at done ⊢
      obtain ⟨⟨parsed, status⟩, call, rest⟩ := bind_eq_ok_iff.mp done
      rw [call, ok_bind]
      dsimp only at rest ⊢
      split
      · next isOk =>
          rw [if_pos isOk] at rest
          obtain ⟨line, text, rest⟩ := bind_eq_ok_iff.mp rest
          obtain ⟨later, behind, rest⟩ := bind_eq_ok_iff.mp rest
          rw [text, ok_bind, ih behind]
          exact rest
      · next notOk =>
          rw [if_neg notOk] at rest
          exact rest

/-- The lines, each with a CRLF behind it. -/
def crlfLines (lines : List Text) : Text := (lines.map (· ++ crlf)).flatten

/-- What `endLine` leaves of a line: the NUL comes one byte too early, if there is a byte. -/
theorem endLine_bytes_line {line behind : Text}
    (bytes : conn.readBuf.bytes = line ++ carriageReturn :: behind)
    (here : conn.checkedIdx = line.length) :
    ∃ pad : Text, (line.dropLast ++ pad).length = line.length ∧ pad.head?.getD 0 = 0 ∧
      conn.endLine.readBuf.bytes = line.dropLast ++ pad ++ 0 :: behind := by
  have size := conn.readBuf.length_bytes
  rw [bytes, List.length_append, List.length_cons] at size
  rcases List.eq_nil_or_concat line with rfl | ⟨init, last, rfl⟩
  · refine ⟨[], rfl, rfl, ?_⟩
    have start : conn.checkedIdx = 0 := here
    unfold endLine
    simp only [storeRead_checkedIdx]
    rw [start, storeRead_inside (by omega)]
    unfold storeRead
    rw [if_neg (by omega)]
    change conn.readBuf.bytes.set 0 0 = _
    rw [bytes]
    rfl
  · rw [List.concat_eq_append] at bytes here ⊢
    rw [List.concat_eq_append, List.length_append] at size
    rw [List.length_append] at here
    refine ⟨[0], by simp, rfl, ?_⟩
    rw [conn.endLine_eq (by rw [here]; simp) (by simp only [here]; omega)]
    unfold Buffer.store
    dsimp only
    simp [bytes, here, List.set_append_right]

variable (conn) in
/-- What `get_line` gives of a line. -/
theorem endLine_text {line behind : Text} (noNul : 0 ∉ line)
    (bytes : conn.readBuf.bytes = line ++ carriageReturn :: behind)
    (here : conn.checkedIdx = line.length) : conn.endLine.readBuf.Holds 0 line.dropLast := by
  obtain ⟨pad, -, head, ended⟩ := endLine_bytes_line bytes here
  refine ⟨fun member => noNul (List.dropLast_subset line member), ?_⟩
  rw [List.drop_zero, ended, List.append_assoc]
  cases pad with
  | nil => exact ⟨_, rfl⟩
  | cons byte pad =>
      obtain rfl : byte = 0 := head
      exact ⟨_, rfl⟩

variable (conn) in
/-- The LF that has been left has no CR in front of it any more. -/
theorem endLine_stays {line behind unused : Text}
    (bytes : conn.readBuf.bytes = line ++ carriageReturn :: (lineFeed :: behind ++ unused))
    (here : conn.checkedIdx = line.length)
    (read : conn.readIdx = line.length + 2 + behind.length) :
    ∃ conn', conn.endLine.nextLine.parseLine = .ok (conn', .lineBad) := by
  obtain ⟨pad, length, -, ended⟩ := endLine_bytes_line bytes here
  have checkedIdx : conn.endLine.nextLine.checkedIdx = line.length + 1 := by
    rw [← here, endLine_frame]
    rfl
  have holds : conn.endLine.nextLine.Received
      (line.dropLast ++ pad ++ 0 :: lineFeed :: behind) := by
    constructor
    · refine ⟨unused, ?_⟩
      rw [nextLine_readBuf, ended]
      simp only [List.append_assoc, List.cons_append]
    · rw [List.length_append, length, endLine_frame]
      simp only [nextLine, read, List.length_cons]
      omega
  have ahead : (line.dropLast ++ pad ++ 0 :: lineFeed :: behind).drop
      conn.endLine.nextLine.checkedIdx = [] ++ lineFeed :: behind := by
    rw [checkedIdx, ← length, ← List.drop_drop, List.drop_left]
    rfl
  have previous : (line.dropLast ++ pad ++ 0 :: lineFeed :: behind)[
      conn.endLine.nextLine.checkedIdx + ([] : Text).length - 1]? = some 0 := by
    rw [checkedIdx, ← length, List.length_nil, Nat.add_zero, Nat.add_sub_cancel,
      List.getElem?_append_right (Nat.le_refl _), Nat.sub_self]
    rfl
  rw [holds.parseLine_stop ahead (by simp [OneLine]) (.inr rfl)]
  refine ⟨_, (if_neg (by decide)).trans (if_neg ?_)⟩
  rintro ⟨-, isReturn⟩
  exact absurd (Option.some.inj (previous.symm.trans isReturn)) (by decide)

variable (conn) in
theorem splitLines_cons {first : Text} {more : List Text}
    (clean : ∀ line ∈ first :: more, OneLine line ∧ 0 ∉ line)
    (fits : (crlfLines (first :: more)).length ≤ readBufferSize) (rounds : Nat) :
    (conn.place (crlfLines (first :: more))).splitLines (rounds + 2) = .ok [first.dropLast] := by
  obtain ⟨plain, noNul⟩ := clean first List.mem_cons_self
  have split : crlfLines (first :: more) = first ++ carriageReturn :: lineFeed :: crlfLines more := by
    simp [crlfLines, crlf]
  generalize crlfLines (first :: more) = received at fits split ⊢
  have holds := place_received conn fits
  have cut := holds.parseLine_stop split plain (.inl rfl)
  have bytes : (conn.place received).readBuf.bytes =
      first ++ carriageReturn :: (lineFeed :: crlfLines more ++
        List.replicate (readBufferSize - received.length) 0) := by
    rw [place_bytes fits, ← List.cons_append, ← List.append_assoc, ← split]
  have start : (conn.place received).checkedIdx + first.length = first.length := Nat.zero_add _
  have read : (conn.place received).readIdx = first.length + 2 + (crlfLines more).length := by
    rw [holds.readIdx, split]
    simp only [List.length_append, List.length_cons]
    omega
  rw [start] at cut
  have text := endLine_text { conn.place received with checkedIdx := first.length } noNul bytes rfl
  obtain ⟨conn', stays⟩ :=
    endLine_stays { conn.place received with checkedIdx := first.length } bytes rfl read
  have startLine : { conn.place received with checkedIdx := first.length }.endLine.startLine = 0 := by
    rw [endLine_frame]
    rfl
  dsimp only [if_true] at cut
  rw [splitLines, cut]
  simp only [if_true, ok_bind, startLine, text.text_eq, splitLines, stays, pure_eq_ok]
  rfl

/-- The buffer's lines come out if there is none or a single empty one. -/
theorem splitLines_iff {lines : List Text} (clean : ∀ line ∈ lines, OneLine line ∧ 0 ∉ line)
    (fits : (crlfLines lines).length ≤ readBufferSize) :
    (∃ rounds, (conn.place (crlfLines lines)).splitLines rounds = .ok lines) ↔
      lines = [] ∨ lines = [[]] := by
  cases lines with
  | nil =>
      refine iff_of_true ⟨1, ?_⟩ (.inl rfl)
      have holds := place_received conn fits
      have opened := holds.parseLine_open (by simp [crlfLines, OneLine]) (Nat.zero_le _)
      rw [splitLines, opened]
      rfl
  | cons first more =>
      have cut := splitLines_cons conn clean fits
      have same : (∃ rounds, (conn.place (crlfLines (first :: more))).splitLines rounds =
          .ok (first :: more)) ↔ [first.dropLast] = first :: more := by
        constructor
        · rintro ⟨rounds, done⟩
          exact Except.ok.inj ((cut rounds).symm.trans (splitLines_more (splitLines_more done)))
        · intro same
          exact ⟨2, (cut 0).trans (congrArg Except.ok same)⟩
      rw [same]
      simp only [List.cons.injEq, reduceCtorEq, false_or]
      constructor
      · rintro ⟨last, rfl⟩
        refine ⟨?_, rfl⟩
        have length := congrArg List.length last
        rw [List.length_dropLast] at length
        exact List.length_eq_zero_iff.mp (by omega)
      · rintro ⟨rfl, rfl⟩
        exact ⟨rfl, rfl⟩

/-- A call is right if it does not meet a CRLF, and lines come out if there is nothing in
them to lose. -/
theorem parseLine_splits_iff (conn : HttpConn) (checked : conn.checkedIdx ≤ conn.readIdx)
    (read : conn.readIdx ≤ readBufferSize) (lines : List Text)
    (clean : ∀ line ∈ lines, OneLine line ∧ 0 ∉ line)
    (fits : (crlfLines lines).length ≤ readBufferSize) :
    (conn.SplitsLine ↔ ¬ MeetsCrlf conn.pending) ∧
      ((∃ rounds, (conn.place (crlfLines lines)).splitLines rounds = .ok lines) ↔
        lines = [] ∨ lines = [[]]) :=
  ⟨⟨fun splits crlf => not_splitsLine_of_crlf read crlf splits,
    splitsLine_of_noCrlf checked read⟩, splitLines_iff clean fits⟩

/-- A request line on a connection that has just been opened. -/
def requestLineConn : HttpConn := idleConn.place (ascii "GET / HTTP/1.1\r\n")

theorem parseLine_splits_iff_requestLineConn :
    (requestLineConn.SplitsLine ↔ ¬ MeetsCrlf requestLineConn.pending) ∧
      ((∃ rounds, (requestLineConn.place (crlfLines [ascii "GET /", []])).splitLines rounds =
          .ok [ascii "GET /", []]) ↔
        [ascii "GET /", []] = ([] : List Text) ∨ [ascii "GET /", []] = ([[]] : List Text)) :=
  parseLine_splits_iff requestLineConn (by decide +kernel) (by decide +kernel)
    [ascii "GET /", []] (by decide +kernel) (by decide +kernel)

/-- Its line is not cut off as it should. -/
theorem parseLine_damages_requestLine : ¬ requestLineConn.SplitsLine :=
  not_splitsLine_of_crlf (by decide +kernel)
    ⟨ascii "GET / HTTP/1.1", [], by decide +kernel, by decide +kernel⟩

end HttpConn

end HPLinuxServer.Http
