import Mathlib.Data.List.Forall2
import HPLinuxServer.Http.RequestAcceptance
import HPLinuxServer.Refinement.Runs

/-!
# Requests in pieces

A connection that is served delivery by delivery: `read`, `process`, and a `write`
that sends the whole response. How the bytes are cut into deliveries should not
matter, but it does.
-/

set_option autoImplicit false

namespace HPLinuxServer.Http

open Memory Refinement

/-- What one call of `process` made of a request. -/
structure Outcome where
  code : HttpCode
  /-- the url handed to `do_request`, if it was called -/
  url : Option Text
  deriving DecidableEq, Repr

/-- A connection with the outcomes so far. -/
structure Session where
  conn : HttpConn
  isOpen : Bool
  outcomes : List Outcome
  deriving DecidableEq, Repr

namespace HttpConn

/-- The url that `process_read` hands to `do_request`, if it calls it. -/
def requestedUrl (fuel : Nat) (conn : HttpConn) : Except Fault (Option Text) := do
  match ← conn.processReadLoop .lineOk fuel with
  | (_, .code _) => return none
  | (conn, .doRequest) => return some (← conn.urlText)

/-- The length of what `m_iv` describes. -/
def ivLength (conn : HttpConn) : Nat :=
  (conn.iv.map fun
    | .writeBuf length => length
    | .file _ length => length).sum

end HttpConn

namespace Session

def start (conn : HttpConn) : Session :=
  { conn := conn.reset, isOpen := true, outcomes := [] }

/-- The main loop closes the connection. -/
def hangUp (session : Session) (conn : HttpConn) : Session :=
  { session with conn := conn.closeConn.1, isOpen := false }

/-- What follows a response: the worker has closed the connection, or `write` sends
all of it and may ask for the close. -/
def respond (session : Session) (sockfd : Int) (conn : HttpConn) (effects : List Effect) :
    Session :=
  if .close sockfd ∈ effects then { session with conn, isOpen := false }
  else
    match conn.write [.sent conn.ivLength] with
    | (conn, _, .returned true) => { session with conn }
    | (conn, _, _) => session.hangUp conn

/-- One delivery to an open connection; none reaches a closed one. -/
def serve (files : FileSystem) (fuel : Nat) (session : Session) (piece : Text) :
    Except Fault Session := do
  if session.isOpen then
    match session.conn.read [.data piece] with
    | (conn, false) => return session.hangUp conn
    | (conn, true) => do
        let (_, code) ← conn.processRead files fuel
        let url ← conn.requestedUrl fuel
        let (processed, effects) ← conn.process files fuel
        if code = .noRequest then return { session with conn := processed }
        else
          let session := { session with outcomes := session.outcomes ++ [(⟨code, url⟩ : Outcome)] }
          return session.respond conn.sockfd processed effects
  else return session

/-- A fresh connection that gets these deliveries has these outcomes. -/
def Yields (files : FileSystem) (conn : HttpConn) (pieces : List Text)
    (outcomes : List Outcome) : Prop :=
  ∃ fuel session, runOps (serve files fuel) (start conn) pieces = .ok session ∧
    session.outcomes = outcomes

end Session

/-- A whole request that asks to keep the connection. -/
structure Request.KeepsAlive (request : Request) : Prop where
  wellFormed : request.WellFormed
  linger : request.fields.linger = true
  complete : request.fields.contentLength = request.body.length

/-- The deliveries have the outcomes that the requests have one by one, each whole
and on a connection of its own. -/
def SegmentationIndependent (files : FileSystem) (conn : HttpConn) (requests : List Request)
    (pieces : List Text) : Prop :=
  ∃ parts : List (List Outcome),
    List.Forall₂ (fun request part => Session.Yields files conn [request.bytes] part)
      requests parts ∧
    Session.Yields files conn pieces parts.flatten

/-! ## The deliveries -/

namespace HttpConn

variable {conn : HttpConn} {received piece : Text}

variable (conn piece) in
/-- `read` of one delivery that leaves room in the buffer. -/
theorem read_piece (fits : conn.readIdx + piece.length < readBufferSize) :
    conn.read [.data piece] =
      ({ conn with
        readBuf := conn.readBuf.copyIn conn.readIdx piece
        readIdx := conn.readIdx + piece.length }, true) := by
  have room : ¬ conn.readIdx ≥ readBufferSize := by omega
  have hasRoom : ¬ readBufferSize - conn.readIdx = 0 := by omega
  have whole : piece.take (readBufferSize - conn.readIdx) = piece :=
    List.take_of_length_le (by omega)
  have left : ¬ readBufferSize - (conn.readIdx + piece.length) = 0 := by omega
  unfold read
  rw [if_neg room]
  simp only [readLoop, recv, if_neg hasRoom, whole, if_neg left]
  rfl

variable (conn) in
theorem read_start (fits : piece.length < readBufferSize) :
    conn.reset.read [.data piece] = (conn.place piece, true) := by
  have start : conn.reset.readIdx = 0 := rfl
  rw [read_piece _ _ (by rw [start, Nat.zero_add]; exact fits)]
  simp only [start, Nat.zero_add]
  rfl

end HttpConn

namespace Session

variable {files : FileSystem} {fuel : Nat} {session session' : Session} {piece : Text}

theorem serve_waits {conn conn' : HttpConn} (isOpen : session.isOpen = true)
    (read : session.conn.read [.data piece] = (conn, true))
    (waits : conn.processReadLoop .lineOk fuel = .ok (conn', .code .noRequest)) :
    session.serve files fuel piece = .ok { session with conn := conn' } := by
  have code : conn.processRead files fuel = .ok (conn', .noRequest) := by
    unfold HttpConn.processRead
    rw [waits]
    rfl
  have url : conn.requestedUrl fuel = .ok none := by
    unfold HttpConn.requestedUrl
    rw [waits]
    rfl
  have processed : conn.process files fuel = .ok (conn', [.epollMod conn'.sockfd .input]) := by
    unfold HttpConn.process
    rw [code]
    rfl
  unfold serve
  simp only [isOpen, read, code, url, processed, ok_bind]
  rfl

@[simp] theorem respond_outcomes (sockfd : Int) (conn : HttpConn) (effects : List Effect) :
    (session.respond sockfd conn effects).outcomes = session.outcomes := by
  unfold respond
  split
  · rfl
  · split <;> rfl

/-- A delivery adds an outcome unless the connection goes on waiting or is hung up. -/
theorem serve_cases (done : session.serve files fuel piece = .ok session') :
    session'.outcomes = session.outcomes ∨
      ∃ outcome, session'.outcomes = session.outcomes ++ [outcome] := by
  unfold serve at done
  split at done
  · split at done
    · cases done
      exact .inl rfl
    · obtain ⟨⟨parsed, code⟩, -, done⟩ := bind_eq_ok_iff.mp done
      obtain ⟨url, -, done⟩ := bind_eq_ok_iff.mp done
      obtain ⟨⟨processed, effects⟩, -, done⟩ := bind_eq_ok_iff.mp done
      dsimp only at done
      split at done
      · cases done
        exact .inl rfl
      · cases done
        exact .inr ⟨_, respond_outcomes _ _ _⟩
  · cases done
    exact .inl rfl

theorem serve_answers {conn : HttpConn} (isOpen : session.isOpen = true)
    (read : session.conn.read [.data piece] = (conn, true))
    (notWaiting : ∀ conn', ¬ conn.LoopEnds (conn', .code .noRequest))
    (done : session.serve files fuel piece = .ok session') : session'.outcomes ≠ [] := by
  unfold serve at done
  rw [if_pos isOpen, read] at done
  obtain ⟨⟨parsed, code⟩, answered, done⟩ := bind_eq_ok_iff.mp done
  obtain ⟨url, -, done⟩ := bind_eq_ok_iff.mp done
  obtain ⟨⟨processed, effects⟩, -, done⟩ := bind_eq_ok_iff.mp done
  have answer : code ≠ .noRequest := by
    rintro rfl
    obtain ⟨conn', waits⟩ := HttpConn.returns_noRequest_iff.mp ⟨fuel, parsed, answered⟩
    exact notWaiting conn' waits
  dsimp only at done
  rw [if_neg answer] at done
  cases done
  rw [respond_outcomes]
  simp

theorem run_outcomes {pieces : List Text}
    (done : runOps (serve files fuel) session pieces = .ok session')
    (answered : session.outcomes ≠ []) : session'.outcomes ≠ [] := by
  induction pieces generalizing session with
  | nil =>
      cases done
      exact answered
  | cons piece pieces ih =>
      obtain ⟨next, served, rest⟩ := bind_eq_ok_iff.mp done
      apply ih rest
      rcases serve_cases served with same | ⟨outcome, added⟩
      · rw [same]
        exact answered
      · rw [added]
        simp

end Session

namespace HttpConn

variable {conn : HttpConn} {front rest piece : Text}

/-- Once the first CRLF was passed over in a delivery, the next one makes the call
fail or spin: the LF that is left has lost its CR. -/
theorem second_not_waits {received : Text}
    (split : received = front ++ carriageReturn :: lineFeed :: rest)
    (fits : received.length + piece.length < readBufferSize) {waiting second : HttpConn}
    (isWaiting : waiting = { conn.place received with checkedIdx := front.length }.endLine)
    (read : waiting.read [.data piece] = (second, true)) (conn' : HttpConn) :
    ¬ second.LoopEnds (conn', .code .noRequest) := by
  have inside : front.length + 1 < received.length := by
    rw [split]
    simp
  have readIdx : waiting.readIdx = received.length := by
    rw [isWaiting, endLine_frame]
    rfl
  have checkedIdx : waiting.checkedIdx = front.length + 1 := by
    rw [isWaiting, endLine_frame]
  rw [read_piece _ _ (by rw [readIdx]; exact fits)] at read
  have same := (Prod.mk.inj read).1.symm
  -- what `parse_line` has left of the line end
  have kept : ∀ i, i + 1 ≠ front.length → i ≠ front.length →
      waiting.readBuf.bytes[i]? = (conn.place received).readBuf.bytes[i]? := by
    intro i notBefore notHere
    rw [isWaiting]
    exact endLine_bytes_other notBefore notHere
  have copied : second.readBuf = waiting.readBuf.copyIn received.length piece := by
    rw [same, readIdx]
  have before : ∀ i, i < received.length →
      second.readBuf.bytes[i]? = waiting.readBuf.bytes[i]? := by
    intro i inReceived
    rw [copied]
    exact Buffer.copyIn_bytes_other (Nat.le_of_lt fits) (.inl inReceived)
  have secondIdx : second.readIdx = received.length + piece.length := by rw [same, readIdx]
  have secondChecked : second.checkedIdx = front.length + 1 := by rw [same, checkedIdx]
  have state : second.checkState = .requestLine := by
    rw [same, isWaiting, endLine_frame]
    rfl
  have halts : second.Halts lineFeed := by
    constructor
    · exact .inr rfl
    · omega
    · rw [secondChecked, before _ inside, kept _ (by omega) (by omega)]
      apply (place_received conn (by omega)).byte
      rw [split]
      simp
    · exact fun isReturn => absurd isReturn (by decide)
    · intro _
      refine ⟨0, ?_, by decide⟩
      rw [secondChecked, Nat.add_sub_cancel, before _ (by omega), isWaiting]
      apply endLine_bytes_here { conn.place received with checkedIdx := front.length }
      change front.length < readBufferSize
      omega
  have nul : second.readBuf.bytes[second.readIdx]? = some 0 := by
    rw [copied, secondIdx, Buffer.copyIn_bytes_other (Nat.le_of_lt fits) (.inr (Nat.le_refl _)),
      kept _ (by omega) (by omega), place_bytes (by omega),
      List.getElem?_append_right (Nat.le_add_right _ _), Nat.add_sub_cancel_left]
    exact List.getElem?_replicate_of_lt (by omega)
  have start : second.startLine = 0 := by
    rw [same, isWaiting, endLine_frame]
    rfl
  obtain ⟨rounds, more⟩ : ∃ rounds, second.readIdx - second.checkedIdx = rounds + 1 :=
    ⟨second.readIdx - second.checkedIdx - 1, by omega⟩
  have walked : second.parseLine = second.parseLineLoop (rounds + 1) := by
    unfold parseLine
    rw [more]
  intro waits
  rcases requestLine_halts state state walked halts (by omega) nul with ⟨failed, bad⟩ | spins
  · have answer : ReadExit.code .badRequest = .code .noRequest :=
      congrArg Prod.snd (bad.unique waits)
    exact nomatch answer
  · obtain ⟨fuel, done⟩ := waits
    rw [spins fuel] at done
    exact nomatch done

end HttpConn

namespace Session

variable {files : FileSystem} {conn : HttpConn} {fuel : Nat} {session : Session}
  {front rest piece : Text}

theorem serve_reads {session' : Session} {conn : HttpConn} (isOpen : session.isOpen = true)
    (read : session.conn.read [.data piece] = (conn, true))
    (done : session.serve files fuel piece = .ok session') :
    ∃ result, conn.processReadLoop .lineOk fuel = .ok result := by
  unfold serve at done
  rw [if_pos isOpen, read] at done
  obtain ⟨answer, answered, -⟩ := bind_eq_ok_iff.mp done
  obtain ⟨result, loop, -⟩ := bind_eq_ok_iff.mp answered
  exact ⟨result, loop⟩

/-- The first delivery, if it contains the end of the first line. -/
theorem serve_start (fits : piece.length < readBufferSize)
    (split : piece = front ++ carriageReturn :: lineFeed :: rest) (plain : OneLine front)
    (done : (start conn).serve files fuel piece = .ok session) :
    session = { start conn with
      conn := { conn.place piece with checkedIdx := front.length }.endLine } := by
  have read : (start conn).conn.read [.data piece] = (conn.place piece, true) :=
    HttpConn.read_start conn fits
  obtain ⟨result, loop⟩ := serve_reads rfl read done
  have waits := HttpConn.place_crlf conn fits split plain
  have same := waits.unique ⟨fuel, loop⟩
  rw [← same] at loop
  exact Except.ok.inj (done.symm.trans (serve_waits rfl read loop))

theorem yields_whole (fits : piece.length < readBufferSize)
    (split : piece = front ++ carriageReturn :: lineFeed :: rest) (plain : OneLine front) :
    Yields files conn [piece] [] := by
  obtain ⟨fuel, waits⟩ := HttpConn.place_crlf conn fits split plain
  refine ⟨fuel, { start conn with
    conn := { conn.place piece with checkedIdx := front.length }.endLine }, ?_, rfl⟩
  have served : (start conn).serve files fuel piece = .ok { start conn with
      conn := { conn.place piece with checkedIdx := front.length }.endLine } :=
    serve_waits rfl (HttpConn.read_start conn fits) waits
  simp only [runOps, served, ok_bind]

theorem yields_whole_unique (fits : piece.length < readBufferSize)
    (split : piece = front ++ carriageReturn :: lineFeed :: rest) (plain : OneLine front)
    {outcomes : List Outcome} (yields : Yields files conn [piece] outcomes) : outcomes = [] := by
  obtain ⟨fuel, session, done, rfl⟩ := yields
  obtain ⟨next, served, finished⟩ := bind_eq_ok_iff.mp done
  cases finished
  rw [serve_start fits split plain served]
  rfl

/-- Cut in two or more deliveries, the bytes of a request have an outcome. -/
theorem not_yields_cut {second : Text} {more : List Text}
    (split : (piece :: second :: more).flatten = front ++ carriageReturn :: lineFeed :: rest)
    (plain : OneLine front) (fits : (piece :: second :: more).flatten.length < readBufferSize) :
    ¬ Yields files conn (piece :: second :: more) [] := by
  rintro ⟨fuel, session, done, unanswered⟩
  obtain ⟨first, servedFirst, done⟩ := bind_eq_ok_iff.mp done
  obtain ⟨next, servedSecond, done⟩ := bind_eq_ok_iff.mp done
  simp only [List.flatten_cons, List.length_append] at fits
  have fitsFirst : piece.length < readBufferSize := by omega
  have read := HttpConn.read_start conn fitsFirst
  by_cases hasFeed : lineFeed ∈ piece
  · obtain ⟨rest', splitFirst⟩ := split_of_append split plain hasFeed
    have waiting := serve_start fitsFirst splitFirst plain servedFirst
    have isOpen : first.isOpen = true := by rw [waiting]; rfl
    have readIdx : first.conn.readIdx = piece.length := by
      rw [waiting]
      change HttpConn.readIdx (HttpConn.endLine _) = _
      rw [HttpConn.endLine_frame]
      rfl
    have readSecond := HttpConn.read_piece first.conn second (by rw [readIdx]; omega)
    have answered := serve_answers isOpen readSecond
      (HttpConn.second_not_waits splitFirst (by omega) (by rw [waiting]) readSecond) servedSecond
    exact run_outcomes done answered unanswered
  · have answered := serve_answers rfl read (HttpConn.not_waits fitsFirst hasFeed) servedFirst
    rcases serve_cases servedSecond with same | ⟨outcome, added⟩
    · exact run_outcomes done (same ▸ answered) unanswered
    · exact run_outcomes done (by rw [added]; simp) unanswered

end Session

/-- The bytes of the requests, one behind the other, begin with the first of them. -/
theorem stream_split {request : Request} (requests : List Request) (alive : request.KeepsAlive) :
    ∃ front rest, ((request :: requests).map Request.bytes).flatten =
      front ++ carriageReturn :: lineFeed :: rest ∧ OneLine front :=
  BeginsWith.split ⟨alive.wellFormed, by simp⟩

section

variable {files : FileSystem} {conn : HttpConn} {requests : List Request}

theorem flatten_empty {parts : List (List Outcome)}
    (each : List.Forall₂ (fun request part => Session.Yields files conn [request.bytes] part)
      requests parts)
    (unique : ∀ request ∈ requests, ∀ part, Session.Yields files conn [request.bytes] part →
      part = []) : parts.flatten = [] := by
  induction each with
  | nil => rfl
  | cons yields each ih =>
      rw [List.flatten_cons, unique _ List.mem_cons_self _ yields,
        ih fun request member => unique request (List.mem_cons_of_mem _ member)]
      rfl

theorem request_fits (fits : (requests.map Request.bytes).flatten.length < readBufferSize)
    {request : Request} (member : request ∈ requests) : request.bytes.length < readBufferSize := by
  have inStream : request.bytes.Sublist (requests.map Request.bytes).flatten :=
    List.sublist_flatten_of_mem (List.mem_map_of_mem member)
  exact Nat.lt_of_le_of_lt inStream.length_le fits

/-- The outcomes of a stream of requests are those of its requests exactly when it
arrives in one delivery. -/
theorem segmentationIndependent_iff (files : FileSystem) (conn : HttpConn)
    (requests : List Request) (pieces : List Text) (nonempty : requests ≠ [])
    (alive : ∀ request ∈ requests, request.KeepsAlive)
    (stream : pieces.flatten = (requests.map Request.bytes).flatten)
    (fits : (requests.map Request.bytes).flatten.length ≤ readBufferSize - 1) :
    SegmentationIndependent files conn requests pieces ↔ pieces.length = 1 := by
  have fits : (requests.map Request.bytes).flatten.length < readBufferSize :=
    Nat.lt_of_le_of_lt fits (by decide)
  have splits : ∀ request ∈ requests, ∃ front rest,
      request.bytes = front ++ carriageReturn :: lineFeed :: rest ∧ OneLine front :=
    fun request member => BeginsWith.split ⟨(alive request member).wellFormed, List.prefix_rfl⟩
  obtain ⟨first, others, rfl⟩ := List.exists_cons_of_ne_nil nonempty
  obtain ⟨front, rest, split, plain⟩ := stream_split others (alive first List.mem_cons_self)
  constructor
  · rintro ⟨parts, each, yields⟩
    have empty : parts.flatten = [] := by
      apply flatten_empty each
      intro request member part whole
      obtain ⟨front, rest, split, plain⟩ := splits request member
      exact Session.yields_whole_unique (request_fits fits member) split plain whole
    rw [empty] at yields
    match pieces with
    | [] =>
        rw [← stream] at split
        simp at split
    | [_] => rfl
    | piece :: second :: more =>
        rw [← stream] at split fits
        exact absurd yields (Session.not_yields_cut split plain fits)
  · intro single
    obtain ⟨piece, rfl⟩ := List.length_eq_one_iff.mp single
    refine ⟨(first :: others).map fun _ => [], ?_, ?_⟩
    · apply List.forall₂_map_right_iff.mpr
      apply List.forall₂_same.mpr
      intro request member
      obtain ⟨front, rest, split, plain⟩ := splits request member
      exact Session.yields_whole (request_fits fits member) split plain
    · have empty : ((first :: others).map fun _ => ([] : List Outcome)).flatten = [] := by simp
      rw [empty]
      rw [← stream] at split fits
      simp only [List.flatten_cons, List.flatten_nil, List.append_nil] at split fits
      exact Session.yields_whole fits split plain

end

/-- A request that keeps the connection. -/
def keepAliveRequest : Request :=
  { line := rootLine, headers := [ascii "Connection: keep-alive"], body := [] }

theorem keepAliveRequest_keepsAlive : keepAliveRequest.KeepsAlive where
  wellFormed := ⟨rootLine_wellFormed, by decide +kernel, by decide +kernel⟩
  linger := by decide +kernel
  complete := by decide +kernel

theorem segmentationIndependent_iff_keepAliveRequest :
    SegmentationIndependent noFiles idleConn [keepAliveRequest, keepAliveRequest]
        [keepAliveRequest.bytes ++ keepAliveRequest.bytes] ↔
      [keepAliveRequest.bytes ++ keepAliveRequest.bytes].length = 1 :=
  segmentationIndependent_iff noFiles idleConn [keepAliveRequest, keepAliveRequest]
    [keepAliveRequest.bytes ++ keepAliveRequest.bytes] (by decide)
    (by simpa using keepAliveRequest_keepsAlive) (by simp) (by decide)

/-- One request, cut behind its first line. -/
theorem segmentation_matters :
    ¬ SegmentationIndependent noFiles idleConn [keepAliveRequest]
      [rootLine.bytes ++ crlf, ascii "Connection: keep-alive" ++ crlf ++ crlf] := by
  rintro ⟨parts, each, yields⟩
  obtain ⟨front, rest, split, plain⟩ := BeginsWith.split
    ⟨keepAliveRequest_keepsAlive.wellFormed, List.prefix_rfl⟩
  have empty : parts.flatten = [] := by
    apply flatten_empty each
    intro request member part whole
    obtain rfl : request = keepAliveRequest := by simpa using member
    exact Session.yields_whole_unique (by decide) split plain whole
  rw [empty] at yields
  have whole : [rootLine.bytes ++ crlf, ascii "Connection: keep-alive" ++ crlf ++ crlf].flatten =
      keepAliveRequest.bytes := by decide
  exact Session.not_yields_cut (whole.trans split) plain (by decide) yields

end HPLinuxServer.Http
