import HPLinuxServer.Http.ProcessReadProperties

/-!
# Which requests are served

`process_read` on the bytes of a fresh connection against the grammar of requests.
A complete request is never served; a request that is not complete is waited for
only if its first line end has arrived.
-/

set_option autoImplicit false

namespace HPLinuxServer.Http

open Memory

namespace HttpConn

/-- `process_read` returns this code, given enough fuel. -/
def Returns (files : FileSystem) (conn : HttpConn) (code : HttpCode) : Prop :=
  ∃ fuel conn', conn.processRead files fuel = .ok (conn', code)

/-- The parsed fields are those of the request. -/
structure Reflects (conn : HttpConn) (request : Request) : Prop where
  url : ∃ offset path, conn.url = some offset ∧ RequestLine.path request.line.url = some path ∧
    conn.readBuf.Holds offset path
  contentLength : conn.contentLength = request.fields.contentLength
  linger : conn.linger = request.fields.linger
  host : match conn.host, request.fields.host with
    | none, none => True
    | some offset, some host => conn.readBuf.Holds offset host
    | _, _ => False

/-- What one call of `process_read` on a fresh connection should do with the bytes:
reach `do_request` exactly for a request, with its fields, and wait for the rest of
one. -/
structure MeetsGrammar (files : FileSystem) (conn : HttpConn) (received : Text) : Prop where
  serves : (∃ conn', (conn.place received).LoopEnds (conn', .doRequest)) ↔
    ∃ request, BeginsWith received request
  reflects : ∀ conn' request, (conn.place received).LoopEnds (conn', .doRequest) →
    BeginsWith received request → conn'.Reflects request
  waits : (¬ ∃ request, BeginsWith received request) → Extendable received →
    (conn.place received).Returns files .noRequest

variable {conn : HttpConn} {files : FileSystem} {received : Text}

theorem openFile_code (path : Text) : (conn.openFile files path).2 ≠ .noRequest := by
  unfold openFile
  split
  · simp
  · dsimp only
    split
    · simp
    · split
      · simp
      · simp

theorem doRequest_code {conn' : HttpConn} {code : HttpCode}
    (done : conn.doRequest files = .ok (conn', code)) : code ≠ .noRequest := by
  obtain ⟨url, -, done⟩ := bind_eq_ok_iff.mp done
  obtain ⟨path, -, done⟩ := bind_eq_ok_iff.mp done
  have same : _ = code := congrArg Prod.snd (Except.ok.inj done)
  rw [← same]
  exact openFile_code path

theorem returns_noRequest_iff :
    conn.Returns files .noRequest ↔ ∃ conn', conn.LoopEnds (conn', .code .noRequest) := by
  constructor
  · rintro ⟨fuel, conn', done⟩
    obtain ⟨⟨parsed, exit⟩, loop, rest⟩ := bind_eq_ok_iff.mp done
    cases exit with
    | code code =>
        cases rest
        exact ⟨conn', fuel, loop⟩
    | doRequest => exact absurd rfl (doRequest_code rest)
  · rintro ⟨conn', fuel, done⟩
    refine ⟨fuel, conn', ?_⟩
    unfold processRead
    rw [done]
    rfl

end HttpConn

/-! ## The first line end of a request -/

theorem BeginsWith.split {received : Text} {request : Request}
    (begins : BeginsWith received request) :
    ∃ front rest, received = front ++ carriageReturn :: lineFeed :: rest ∧ OneLine front := by
  obtain ⟨wellFormed, rest, rfl⟩ := begins
  refine ⟨request.line.bytes, (request.headers.map (· ++ crlf)).flatten ++ crlf ++ request.body ++ rest,
    ?_, wellFormed.line.oneLine⟩
  simp [Request.bytes, crlf]

/-- A text with an LF that extends to one with a proper line end has that line end. -/
theorem split_of_append {received more front rest : Text}
    (same : received ++ more = front ++ carriageReturn :: lineFeed :: rest) (plain : OneLine front)
    (member : lineFeed ∈ received) :
    ∃ rest', received = front ++ carriageReturn :: lineFeed :: rest' := by
  have notIn : lineFeed ∉ front := fun inside => (plain lineFeed inside).2 rfl
  rcases List.append_eq_append_iff.mp same with ⟨behind, split, -⟩ | ⟨behind, rfl, split⟩
  · exact absurd (split ▸ List.mem_append_left _ member) notIn
  · match behind, split with
    | [], _ => exact absurd (by simpa using member) notIn
    | [byte], split =>
        obtain ⟨rfl, -⟩ := List.cons.inj split
        have isFeed : lineFeed ∈ [carriageReturn] := (List.mem_append.mp member).resolve_left notIn
        exact absurd isFeed (by decide)
    | first :: second :: rest', split =>
        obtain ⟨isReturn, behindReturn⟩ := List.cons.inj split
        have isFeed : lineFeed = second := (List.cons.inj behindReturn).1
        rw [← isReturn, ← isFeed]
        exact ⟨rest', rfl⟩

theorem extendable_of_words {words : RequestLine} (shaped : words.Shaped) (served : words.Served)
    (plain : OneLine words.bytes) : Extendable words.bytes := by
  refine ⟨crlf ++ crlf, ⟨words, [], []⟩, ⟨⟨shaped, served, plain⟩, by simp, ?_⟩, ?_⟩
  · exact Int.le_refl 0
  · simp [Request.bytes]

namespace HttpConn

variable {conn : HttpConn} {files : FileSystem} {received : Text}

/-- Without an LF no call of `process_read` waits. -/
theorem not_waits (fits : received.length < readBufferSize) (noFeed : lineFeed ∉ received)
    (waiting : HttpConn) : ¬ (conn.place received).LoopEnds (waiting, .code .noRequest) := by
  intro waits
  have notEnding : ∀ conn' exit, exit ≠ .code .noRequest →
      ¬ (conn.place received).LoopEnds (conn', exit) := fun conn' exit other ends =>
    other (congrArg Prod.snd (ends.unique waits))
  rcases cut_line received with plain | ⟨front, byte, rest, split, plain, ends⟩
  · obtain ⟨line, text⟩ := Buffer.holds_of_nul (Nat.zero_le _) (place_nul conn fits)
    rcases place_plain text fits plain with ⟨conn', bad⟩ | ⟨-, conn', url, requests, -⟩
    · exact notEnding conn' _ (by decide) bad
    · exact notEnding conn' _ (by decide) requests
  · have improper : ¬ (byte = carriageReturn ∧ rest.head? = some lineFeed) := fun both =>
      noFeed (split ▸ List.mem_append_right front
        (List.mem_cons_of_mem byte (List.mem_of_mem_head? both.2)))
    rcases place_halts conn fits split plain ends improper with
      ⟨conn', bad⟩ | spins
    · exact notEnding conn' _ (by decide) bad
    · obtain ⟨fuel, done⟩ := waits
      rw [spins fuel] at done
      exact nomatch done

/-- Only a bare request line reaches `do_request`. -/
theorem words_of_doRequest (clean : 0 ∉ received) (fits : received.length < readBufferSize)
    {conn' : HttpConn} (requests : (conn.place received).LoopEnds (conn', .doRequest)) :
    OneLine received ∧ Extendable received := by
  have notEnding : ∀ conn' code, ¬ (conn.place received).LoopEnds (conn', .code code) :=
    fun conn' code ends => nomatch congrArg Prod.snd (ends.unique requests)
  rcases cut_line received with plain | ⟨front, byte, rest, split, plain, ends⟩
  · refine ⟨plain, ?_⟩
    rcases place_plain (place_holds conn clean fits) fits plain with
      ⟨conn', bad⟩ | ⟨⟨words, rfl, shaped, served⟩, -⟩
    · exact absurd bad (notEnding conn' _)
    · exact extendable_of_words shaped served plain
  · by_cases proper : byte = carriageReturn ∧ rest.head? = some lineFeed
    · obtain ⟨rfl, second⟩ := proper
      obtain ⟨rest', rfl⟩ := List.head?_eq_some_iff.mp second
      have waits := place_crlf conn fits split plain
      exact (notEnding _ _ waits).elim
    · rcases place_halts conn fits split plain ends proper with
        ⟨conn', bad⟩ | spins
      · exact absurd bad (notEnding conn' _)
      · obtain ⟨fuel, done⟩ := requests
        rw [spins fuel] at done
        exact nomatch done

theorem begins_not_served {request : Request} (fits : received.length < readBufferSize)
    (begins : BeginsWith received request) {conn' : HttpConn} :
    ¬ (conn.place received).LoopEnds (conn', .doRequest) := by
  intro requests
  obtain ⟨front, rest, split, plain⟩ := begins.split
  have waits := place_crlf conn fits split plain
  have same : ReadExit.code .noRequest = ReadExit.doRequest :=
    congrArg Prod.snd (waits.unique requests)
  exact nomatch same

/-- The automaton does what the grammar asks for exactly on bytes that are no complete
request, and that contain an LF if they can become one. -/
theorem processRead_meetsGrammar_iff (files : FileSystem) (conn : HttpConn) (received : Text)
    (clean : 0 ∉ received) (fits : received.length < readBufferSize) :
    MeetsGrammar files conn received ↔
      (¬ ∃ request, BeginsWith received request) ∧
        (Extendable received → lineFeed ∈ received) := by
  constructor
  · intro meets
    have incomplete : ¬ ∃ request, BeginsWith received request := by
      intro complete
      obtain ⟨request, begins⟩ := complete
      obtain ⟨conn', requests⟩ := meets.serves.mpr ⟨request, begins⟩
      exact begins_not_served fits begins requests
    refine ⟨incomplete, fun extendable => ?_⟩
    apply Decidable.byContradiction
    intro noFeed
    obtain ⟨waiting, waits⟩ := returns_noRequest_iff.mp (meets.waits incomplete extendable)
    exact not_waits fits noFeed waiting waits
  · rintro ⟨incomplete, hasFeed⟩
    refine ⟨⟨?_, fun complete => absurd complete incomplete⟩, ?_, ?_⟩
    · rintro ⟨conn', requests⟩
      obtain ⟨plain, extendable⟩ := words_of_doRequest clean fits requests
      exact absurd rfl (plain lineFeed (hasFeed extendable)).2
    · intro conn' request _ begins
      exact absurd ⟨request, begins⟩ incomplete
    · intro _ extendable
      obtain ⟨more, request, begins⟩ := extendable
      obtain ⟨front, rest, split, plain⟩ := begins.split
      obtain ⟨rest', split'⟩ := split_of_append split plain (hasFeed ⟨more, request, begins⟩)
      exact returns_noRequest_iff.mpr ⟨_, place_crlf conn fits split' plain⟩

end HttpConn

/-- `GET / HTTP/1.1` -/
def rootLine : RequestLine :=
  { method := ascii "GET", firstGap := ascii " ", url := ascii "/", secondGap := ascii " "
    version := ascii "HTTP/1.1" }

theorem rootLine_wellFormed : rootLine.WellFormed where
  shaped := ⟨by decide +kernel, by decide +kernel, by decide +kernel, by decide +kernel,
    by decide +kernel⟩
  served := ⟨by decide +kernel, by decide +kernel, by decide +kernel⟩
  oneLine := by decide +kernel

/-- The first line of a request has arrived. -/
theorem processRead_meetsGrammar_iff_rootLine :
    HttpConn.MeetsGrammar noFiles idleConn (rootLine.bytes ++ crlf) ↔
      (¬ ∃ request, BeginsWith (rootLine.bytes ++ crlf) request) ∧
        (Extendable (rootLine.bytes ++ crlf) → lineFeed ∈ rootLine.bytes ++ crlf) :=
  HttpConn.processRead_meetsGrammar_iff noFiles idleConn (rootLine.bytes ++ crlf) (by decide)
    (by decide)

/-- A whole request that is not served. -/
theorem processRead_misses_rootRequest :
    ¬ HttpConn.MeetsGrammar noFiles idleConn (Request.bytes ⟨rootLine, [], []⟩) := by
  intro meets
  have begins : BeginsWith (Request.bytes ⟨rootLine, [], []⟩) ⟨rootLine, [], []⟩ :=
    ⟨⟨rootLine_wellFormed, by simp, Int.le_refl 0⟩, List.prefix_rfl⟩
  obtain ⟨conn', requests⟩ := meets.serves.mpr ⟨_, begins⟩
  exact HttpConn.begins_not_served (by decide) begins requests

end HPLinuxServer.Http
