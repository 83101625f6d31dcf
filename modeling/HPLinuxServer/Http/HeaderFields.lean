import HPLinuxServer.Http.HttpConn

/-!
# What `parse_headers` makes of a header

The headers whose names it knows, with blanks in front of the value. Only the branch for
`Connection` skips nothing but tabs.
-/

set_option autoImplicit false

namespace HPLinuxServer.Http

open Memory

/-- The headers that are looked for. -/
inductive HeaderName where
  | connection
  | contentLength
  | host
  deriving DecidableEq, Repr

def HeaderName.text : HeaderName → Text
  | connection => ascii "Connection"
  | contentLength => ascii "Content-Length"
  | host => ascii "Host"

/-- A header line: a name in any case, a colon, a run of blanks and the value. -/
structure HeaderLine where
  header : HeaderName
  name : Text
  run : Text
  value : Text
  named : strcasecmpEq name header.text = true
  blank : ∀ byte ∈ run, byte ∈ blanks
  started : ∀ byte ∈ value.head?, byte ∉ blanks

namespace HeaderLine

def bytes (line : HeaderLine) : Text := line.name ++ ascii ":" ++ line.run ++ line.value

/-- The line without its run of blanks. -/
def bare (line : HeaderLine) : HeaderLine :=
  { line with run := [], blank := fun _ member => absurd member List.not_mem_nil }

end HeaderLine

namespace HttpConn

/-- What a header with this value is to do. -/
def Learns (conn conn' : HttpConn) (header : HeaderName) (value : Text) : Prop :=
  match header with
  | .connection =>
      conn' = { conn with linger := conn.linger || strcasecmpEq value (ascii "keep-alive") }
  | .contentLength =>
      conn' = { conn with contentLength := conn'.contentLength } ∧
        ∀ number, DecimalNumber value number → -2147483648 ≤ number → number ≤ 2147483647 →
          conn'.contentLength = number
  | .host =>
      ∃ pointer, conn' = { conn with host := some pointer } ∧ conn.readBuf.Holds pointer value

/-- The parsed fields are the same, where the strings at `m_host` stand in two buffers. -/
structure SameFields (conn conn' : HttpConn) : Prop where
  contentLength : conn'.contentLength = conn.contentLength
  linger : conn'.linger = conn.linger
  host : conn'.host = conn.host ∨ ∃ pointer pointer' value, conn.host = some pointer ∧
    conn'.host = some pointer' ∧ conn.readBuf.Holds pointer value ∧
    conn'.readBuf.Holds pointer' value

/-- A header line has its effect, and the same one as without its run of blanks. -/
def ReadsHeader (conn : HttpConn) (text : Nat) (line : HeaderLine) : Prop :=
  ∃ conn', conn.parseHeaders text = .ok (conn', .noRequest) ∧
    conn.Learns conn' line.header line.value ∧
    ∀ other : Buffer readBufferSize, other.Holds text line.bare.bytes →
      ∃ bare, { conn with readBuf := other }.parseHeaders text = .ok (bare, .noRequest) ∧
        conn'.SameFields bare

end HttpConn

/-! ## Telling the headers apart -/

namespace HeaderLine

variable (line : HeaderLine)

theorem lower_bytes : ∃ rest, line.bytes.map toLower = line.header.text.map toLower ++ 58 :: rest :=
  ⟨(line.run ++ line.value).map toLower, by
    unfold bytes
    rw [← of_decide_eq_true line.named]
    simp [ascii, asciiChars, toLower]⟩

/-- A name that differs from the line's in some byte is not the name of the line. -/
theorem other_name {literal : Text} {count : Nat} (whole : literal.length = count) (index : Nat)
    (inside : index < literal.length ∧ index < line.header.text.length)
    (differ : (literal.map toLower)[index]? ≠ (line.header.text.map toLower)[index]?) :
    strncasecmpEq line.bytes literal count = false := by
  obtain ⟨rest, lower⟩ := line.lower_bytes
  rw [← Bool.not_eq_true, strncasecmpEq_iff whole, lower]
  rintro ⟨tail, same⟩
  have byte := congrArg (fun text : Text => text[index]?) same
  rw [List.getElem?_append_left (by rw [List.length_map]; exact inside.1),
    List.getElem?_append_left (by rw [List.length_map]; exact inside.2)] at byte
  exact differ byte

theorem length_name : line.name.length = line.header.text.length := by
  have lengths := congrArg List.length (of_decide_eq_true line.named)
  rwa [List.length_map, List.length_map] at lengths

theorem bytes_ne_nil : line.bytes ≠ [] := by
  simp [bytes, ascii, asciiChars]

theorem drop_name {count : Nat} (whole : line.header.text.length + 1 = count) :
    line.bytes.drop count = line.run ++ line.value := by
  have front : (line.name ++ ascii ":").length = count := by
    rw [List.length_append, line.length_name]
    exact whole
  unfold bytes
  rw [List.append_assoc _ line.run, List.drop_left' front]

end HeaderLine

namespace HttpConn

variable {conn : HttpConn} {text : Nat} {line : HeaderLine}

theorem parseHeaders_connection (holds : conn.readBuf.Holds text line.bytes)
    (header : line.header = .connection) :
    conn.parseHeaders text =
      if strcasecmpEq ((line.run ++ line.value).drop (strspn (line.run ++ line.value) (ascii "\t")))
          (ascii "keep-alive") then .ok ({ conn with linger := true }, .noRequest)
      else .ok (conn, .noRequest) := by
  obtain ⟨rest, lower⟩ := line.lower_bytes
  have found : strncasecmpEq line.bytes (ascii "Connection:") 11 = true := by
    rw [strncasecmpEq_iff (by decide), lower, header]
    exact ⟨rest, rfl⟩
  have behind : line.bytes.drop 11 = line.run ++ line.value :=
    line.drop_name (by rw [header]; decide)
  unfold parseHeaders
  simp only [holds.text_eq, ok_bind, line.bytes_ne_nil, if_false, found, if_true, behind]
  rfl

variable (conn) in
theorem parseHeaders_contentLength (holds : conn.readBuf.Holds text line.bytes)
    (header : line.header = .contentLength) :
    conn.parseHeaders text =
      .ok ({ conn with contentLength := toInt (atol line.value) }, .noRequest) := by
  obtain ⟨rest, lower⟩ := line.lower_bytes
  have other : strncasecmpEq line.bytes (ascii "Connection:") 11 = false :=
    line.other_name (by decide) 3 (by rw [header]; decide) (by rw [header]; decide)
  have found : strncasecmpEq line.bytes (ascii "Content-Length:") 15 = true := by
    rw [strncasecmpEq_iff (by decide), lower, header]
    exact ⟨rest, rfl⟩
  have behind : line.bytes.drop 15 = line.run ++ line.value :=
    line.drop_name (by rw [header]; decide)
  have skipped : strspn (line.run ++ line.value) blanks = line.run.length :=
    strspn_append line.blank line.started
  unfold parseHeaders
  simp only [holds.text_eq, ok_bind, line.bytes_ne_nil, if_false, found, if_true, behind, other,
    Bool.false_eq_true, skipped, List.drop_left]
  rfl

variable (conn) in
theorem parseHeaders_host (holds : conn.readBuf.Holds text line.bytes)
    (header : line.header = .host) :
    conn.parseHeaders text =
      .ok ({ conn with host := some (text + 5 + line.run.length) }, .noRequest) := by
  obtain ⟨rest, lower⟩ := line.lower_bytes
  have other : strncasecmpEq line.bytes (ascii "Connection:") 11 = false :=
    line.other_name (by decide) 0 (by rw [header]; decide) (by rw [header]; decide)
  have another : strncasecmpEq line.bytes (ascii "Content-Length:") 15 = false :=
    line.other_name (by decide) 0 (by rw [header]; decide) (by rw [header]; decide)
  have found : strncasecmpEq line.bytes (ascii "Host:") 5 = true := by
    rw [strncasecmpEq_iff (by decide), lower, header]
    exact ⟨rest, rfl⟩
  have behind : line.bytes.drop 5 = line.run ++ line.value :=
    line.drop_name (by rw [header]; decide)
  have skipped : strspn (line.run ++ line.value) blanks = line.run.length :=
    strspn_append line.blank line.started
  unfold parseHeaders
  simp only [holds.text_eq, ok_bind, line.bytes_ne_nil, if_false, found, if_true, behind, other,
    another, Bool.false_eq_true, skipped]
  rfl

/-- The value of a `Host`. -/
theorem holds_value {buffer : Buffer readBufferSize} (holds : buffer.Holds text line.bytes)
    (header : line.header = .host) : buffer.Holds (text + 5 + line.run.length) line.value := by
  have behind : line.bytes.drop 5 = line.run ++ line.value :=
    line.drop_name (by rw [header]; decide)
  have length := congrArg List.length behind
  rw [List.length_drop, List.length_append] at length
  have five : 5 ≤ line.bytes.length := by
    have name := line.length_name
    rw [header] at name
    have four : HeaderName.host.text.length = 4 := by decide
    have colon : (ascii ":").length = 1 := by decide
    simp only [HeaderLine.bytes, List.length_append]
    omega
  have value := (holds.drop 5 five).drop line.run.length (by rw [behind, List.length_append]; omega)
  rwa [behind, List.drop_left] at value

/-- A blank that is no tab hides the value of `Connection`. -/
theorem keepAlive_behindTabs (line : HeaderLine) :
    strcasecmpEq ((line.run ++ line.value).drop (strspn (line.run ++ line.value) (ascii "\t")))
        (ascii "keep-alive") = true ↔
      32 ∉ line.run ∧ strcasecmpEq line.value (ascii "keep-alive") = true := by
  have blank : ∀ byte ∈ line.run, byte = 32 ∨ byte = 9 := by
    intro byte member
    simpa [blanks, ascii, asciiChars] using line.blank byte member
  have tab : ascii "\t" = [9] := by decide
  rw [tab]
  by_cases space : 32 ∈ line.run
  · obtain ⟨tabs, rest, split, inside, stop⟩ := cut_behind line.run [9]
    cases rest with
    | nil =>
        rw [List.append_nil] at split
        exact absurd (inside 32 (split ▸ space)) (by decide)
    | cons first rest =>
        have isSpace : first = 32 :=
          (blank first (by simp [split])).resolve_right fun isTab => stop first rfl (by simp [isTab])
        have skipped : strspn (tabs ++ (first :: rest ++ line.value)) [9] = tabs.length :=
          strspn_append inside stop
        rw [split, List.append_assoc, skipped, List.drop_left, isSpace]
        refine iff_of_false (fun same => ?_) fun both => both.1 ?_
        · have heads : some (toLower 32) = some (toLower 107) :=
            congrArg List.head? (of_decide_eq_true same)
          exact absurd heads (by decide)
        · simp
  · have tabs : ∀ byte ∈ line.run, byte ∈ [9] := fun byte member =>
      List.mem_singleton.mpr ((blank byte member).resolve_left fun isSpace => space (isSpace ▸ member))
    have stop : ∀ byte ∈ line.value.head?, byte ∉ [9] := fun byte head isTab =>
      line.started byte head (by rw [List.mem_singleton.mp isTab]; decide)
    rw [strspn_append tabs stop, List.drop_left]
    simp only [space, not_false_eq_true, true_and]

variable (conn) in
theorem parseHeaders_connection_bare (holds : conn.readBuf.Holds text line.bytes)
    (header : line.header = .connection) (noSpace : 32 ∉ line.run) :
    conn.parseHeaders text = .ok
      ({ conn with linger := conn.linger || strcasecmpEq line.value (ascii "keep-alive") },
        .noRequest) := by
  rw [parseHeaders_connection holds header]
  cases keeps : strcasecmpEq line.value (ascii "keep-alive") with
  | true =>
      rw [if_pos ((keepAlive_behindTabs line).mpr ⟨noSpace, keeps⟩), Bool.or_true]
  | false =>
      rw [if_neg fun both => Bool.false_ne_true
        (keeps.symm.trans ((keepAlive_behindTabs line).mp both).2), Bool.or_false]

/-- Every header is read as it should, but for a `Connection` whose value asks to keep the
connection and stands behind a space. -/
theorem readsHeader_iff (conn : HttpConn) (text : Nat) (line : HeaderLine)
    (holds : conn.readBuf.Holds text line.bytes) :
    conn.ReadsHeader text line ↔
      (line.header = .connection → 32 ∉ line.run ∨
        strcasecmpEq line.value (ascii "keep-alive") = false ∨ conn.linger = true) := by
  cases header : line.header with
  | connection =>
      constructor
      · rintro ⟨conn', done, effect, -⟩ -
        rw [header] at effect
        have linger : conn'.linger = (conn.linger || strcasecmpEq line.value (ascii "keep-alive")) :=
          congrArg HttpConn.linger effect
        rw [parseHeaders_connection holds header] at done
        by_cases noSpace : 32 ∈ line.run
        · right
          rw [if_neg fun both => ((keepAlive_behindTabs line).mp both).1 noSpace] at done
          cases done
          cases keeps : strcasecmpEq line.value (ascii "keep-alive") with
          | false => exact .inl rfl
          | true =>
              rw [keeps, Bool.or_true] at linger
              exact .inr linger
        · exact .inl noSpace
      · intro condition
        have parsed : conn.parseHeaders text = .ok
            ({ conn with linger := conn.linger || strcasecmpEq line.value (ascii "keep-alive") },
              .noRequest) := by
          rcases condition rfl with noSpace | other
          · exact parseHeaders_connection_bare conn holds header noSpace
          · rw [parseHeaders_connection holds header]
            split
            · next both =>
                have keeps := ((keepAlive_behindTabs line).mp both).2
                rw [keeps, Bool.or_true]
            · next notBoth =>
                rcases other with other | lingers
                · rw [other, Bool.or_false]
                · rw [lingers, Bool.true_or, ← lingers]
        refine ⟨_, parsed, by rw [header]; exact rfl, fun other bare => ?_⟩
        have parsedBare := parseHeaders_connection_bare { conn with readBuf := other } bare header
          List.not_mem_nil
        exact ⟨_, parsedBare, rfl, rfl, .inl rfl⟩
  | contentLength =>
      refine iff_of_true ⟨_, parseHeaders_contentLength conn holds header, ?_, fun other bare => ?_⟩
        (fun isConnection => by cases isConnection)
      · rw [header]
        refine ⟨rfl, fun number decimal low high => ?_⟩
        have long : atol line.value = number := atol_decimal decimal (by omega) (by omega)
        dsimp only
        rw [long]
        exact toInt_eq_iff.mpr ⟨low, high⟩
      · have parsedBare := parseHeaders_contentLength { conn with readBuf := other } bare header
        exact ⟨_, parsedBare, rfl, rfl, .inl rfl⟩
  | host =>
      refine iff_of_true ⟨_, parseHeaders_host conn holds header, ?_, fun other bare => ?_⟩
        (fun isConnection => by cases isConnection)
      · rw [header]
        exact ⟨_, rfl, holds_value holds header⟩
      · have parsedBare := parseHeaders_host { conn with readBuf := other } bare header
        exact ⟨_, parsedBare, rfl, rfl, .inr ⟨_, _, line.value, rfl, rfl, holds_value holds header,
          holds_value bare header⟩⟩

/-- The header that browsers send. -/
def keepAliveLine : HeaderLine where
  header := .connection
  name := ascii "Connection"
  run := ascii " "
  value := ascii "keep-alive"
  named := by decide +kernel
  blank := by decide +kernel
  started := by decide +kernel

/-- A connection with a header in its buffer. -/
def headerConn (line : HeaderLine) : HttpConn :=
  { idleConn with readBuf := (Buffer.zero _).copyIn 0 line.bytes }

theorem headerConn_keepAlive : (headerConn keepAliveLine).readBuf.Holds 0 keepAliveLine.bytes :=
  ⟨by decide +kernel, List.replicate 2025 0, by decide +kernel⟩

theorem readsHeader_iff_keepAliveLine :
    (headerConn keepAliveLine).ReadsHeader 0 keepAliveLine ↔
      (keepAliveLine.header = .connection → 32 ∉ keepAliveLine.run ∨
        strcasecmpEq keepAliveLine.value (ascii "keep-alive") = false ∨
          (headerConn keepAliveLine).linger = true) :=
  readsHeader_iff (headerConn keepAliveLine) 0 keepAliveLine headerConn_keepAlive

/-- It does not keep the connection. -/
theorem readsHeader_losesKeepAlive : ¬ (headerConn keepAliveLine).ReadsHeader 0 keepAliveLine := by
  rintro ⟨conn', done, effect, -⟩
  have linger : conn'.linger = true := congrArg HttpConn.linger effect
  rw [parseHeaders_connection headerConn_keepAlive rfl, if_neg (by decide +kernel)] at done
  cases done
  exact Bool.false_ne_true linger

/-! ## The end of the body -/

/-- `parse_headers` has stored the value of this line in `m_content_length`. -/
def StoresLength (conn : HttpConn) (line : HeaderLine) : Prop :=
  ∃ (before after : HttpConn) (text : Nat), before.readBuf.Holds text line.bytes ∧
    before.parseHeaders text = .ok (after, .noRequest) ∧ conn.contentLength = after.contentLength

/-- `parse_content` on the line that starts here has no overflow, and the NUL behind the body
goes to what has been received. -/
structure TerminatesBody (conn : HttpConn) : Prop where
  evaluates : ∃ result, conn.parseContent conn.startLine = .ok result
  inside : ∀ conn', conn.parseContent conn.startLine = .ok (conn', .getRequest) →
    ∃ index : Nat, (index : Int) = conn.startLine + conn.contentLength ∧
      conn.checkedIdx ≤ index ∧ index ≤ conn.readIdx ∧ index < readBufferSize ∧
      conn' = { conn with readBuf := conn.readBuf.store index 0 }

theorem storesLength (header : line.header = .contentLength) (stored : conn.StoresLength line) :
    conn.contentLength = toInt (atol line.value) := by
  obtain ⟨before, after, text, holds, parsed, length⟩ := stored
  rw [parseHeaders_contentLength before holds header] at parsed
  cases parsed
  exact length

/-- The body is terminated properly if the length that is announced is not negative and adds
up to an `int` with `m_checked_idx`. -/
theorem terminatesBody_iff (conn : HttpConn) (line : HeaderLine)
    (header : line.header = .contentLength) (stored : conn.StoresLength line)
    (start : conn.startLine = conn.checkedIdx) (checked : conn.checkedIdx ≤ conn.readIdx)
    (read : conn.readIdx < readBufferSize) :
    conn.TerminatesBody ↔ 0 ≤ toInt (atol line.value) ∧
      toInt (atol line.value) + conn.checkedIdx ≤ 2147483647 := by
  have range := toInt_range (atol line.value)
  have length := storesLength header stored
  constructor
  · rintro ⟨⟨result, evaluates⟩, inside⟩
    unfold parseContent at evaluates inside
    obtain ⟨sum, checks, -⟩ := bind_eq_ok_iff.mp evaluates
    have fits : conn.contentLength + conn.checkedIdx ≤ 2147483647 := by
      unfold checkInt at checks
      split at checks
      · next bounds => exact bounds.2
      · cases checks
    refine ⟨?_, length ▸ fits⟩
    rcases Int.lt_or_le (toInt (atol line.value)) 0 with negative | positive
    · rw [checkInt_eq_ok (by omega) fits, ok_bind, if_pos (by omega)] at inside
      obtain ⟨index, place, behind, -⟩ := inside _ rfl
      omega
    · exact positive
  · rintro ⟨positive, fits⟩
    have sum : checkInt (conn.contentLength + conn.checkedIdx) =
        .ok (conn.contentLength + conn.checkedIdx) := checkInt_eq_ok (by omega) (by omega)
    constructor
    · unfold parseContent
      rw [sum, ok_bind]
      split
      · exact ⟨_, rfl⟩
      · exact ⟨_, rfl⟩
    · intro conn' done
      unfold parseContent at done
      rw [sum, ok_bind] at done
      split at done
      · next enough =>
          have place : (conn.startLine : Int) + conn.contentLength =
              ((conn.startLine + conn.contentLength.toNat : Nat) : Int) := by omega
          refine ⟨conn.startLine + conn.contentLength.toNat, place.symm, by omega, by omega,
            by omega, ?_⟩
          have here := (Prod.mk.inj (Except.ok.inj done)).1
          rw [← here, place]
          unfold storeRead
          rw [if_pos ⟨Int.natCast_nonneg _, by omega⟩, Int.toNat_natCast]
      · cases done

/-- A header with a body of minus one byte. -/
def negativeLengthLine : HeaderLine where
  header := .contentLength
  name := ascii "content-length"
  run := ascii " "
  value := ascii "-61"
  named := by decide +kernel
  blank := by decide +kernel
  started := by decide +kernel

/-- Behind that header and an empty line, nothing else has been received. -/
def negativeLengthConn : HttpConn :=
  { idleConn with
    contentLength := -61
    startLine := 60
    checkedIdx := 60
    readIdx := 60
    checkState := .content }

theorem headerConn_negativeLength :
    (headerConn negativeLengthLine).readBuf.Holds 0 negativeLengthLine.bytes :=
  ⟨by decide +kernel, List.replicate 2028 0, by decide +kernel⟩

theorem negativeLengthConn_stores : negativeLengthConn.StoresLength negativeLengthLine :=
  ⟨headerConn negativeLengthLine, _, 0, headerConn_negativeLength,
    parseHeaders_contentLength _ headerConn_negativeLength rfl, by decide +kernel⟩

theorem terminatesBody_iff_negativeLengthConn :
    negativeLengthConn.TerminatesBody ↔ 0 ≤ toInt (atol negativeLengthLine.value) ∧
      toInt (atol negativeLengthLine.value) + negativeLengthConn.checkedIdx ≤ 2147483647 :=
  terminatesBody_iff negativeLengthConn negativeLengthLine rfl negativeLengthConn_stores rfl
    (by decide +kernel) (by decide +kernel)

/-- Its NUL goes in front of the buffer. -/
theorem parseContent_outside : ¬ negativeLengthConn.TerminatesBody := by
  rintro ⟨-, inside⟩
  obtain ⟨index, place, -⟩ := inside (negativeLengthConn.storeRead (-1) 0) (by decide +kernel)
  have negative : (index : Int) = -1 := place
  omega

end HttpConn

end HPLinuxServer.Http
