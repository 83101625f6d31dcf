import HPLinuxServer.Memory.Footprint
import HPLinuxServer.Http.RequestLineProperties

/-!
# The grammar of request lines

`parse_request_line` accepts a text if and only if it is a line of the grammar, and it
keeps to the text and the NUL behind it.
-/

set_option autoImplicit false

namespace HPLinuxServer.Http

open Memory

/-- A url that is served, with the path that it names. -/
inductive UrlPath : Text → Text → Prop where
  | absolute (rest : Text) : UrlPath (47 :: rest) (47 :: rest)
  | http {scheme host : Text} (rest : Text) :
      strcasecmpEq scheme (ascii "http://") = true → 47 ∉ host →
      UrlPath (scheme ++ (host ++ 47 :: rest)) (47 :: rest)

/-- A text is a request line whose url names the path. -/
def RequestLineOf (text path : Text) : Prop :=
  ∃ method firstGap url secondGap version : Text,
    text = method ++ firstGap ++ url ++ secondGap ++ version ∧
    strcasecmpEq method (ascii "GET") = true ∧
    (firstGap ≠ [] ∧ ∀ byte ∈ firstGap, byte ∈ blanks) ∧
    ((∀ byte ∈ url, byte ∉ blanks) ∧ UrlPath url path) ∧
    (secondGap ≠ [] ∧ ∀ byte ∈ secondGap, byte ∈ blanks) ∧
    strcasecmpEq version (ascii "HTTP/1.1") = true

theorem mem_map_toLower {text other : Text} (same : strcasecmpEq text other = true) {byte : UInt8}
    (member : byte ∈ text) : toLower byte ∈ other.map toLower := by
  rw [← of_decide_eq_true same]
  exact List.mem_map_of_mem member

/-- A word that is compared without case has no blanks, if the other one has none. -/
theorem notBlank_of_strcasecmpEq {text other : Text} (same : strcasecmpEq text other = true)
    (clean : ∀ blank ∈ blanks, toLower blank ∉ other.map toLower) :
    ∀ byte ∈ text, byte ∉ blanks := fun byte member isBlank =>
  clean byte isBlank (mem_map_toLower same member)

theorem UrlPath.path_eq {url path : Text} (named : UrlPath url path) :
    RequestLine.path url = some path := by
  cases named with
  | absolute rest =>
      have noScheme : strncasecmpEq (47 :: rest) (ascii "http://") 7 = false := by
        unfold strncasecmpEq strcasecmpEq
        apply decide_eq_false
        intro same
        exact absurd (List.cons.inj same).1 (by decide)
      unfold RequestLine.path
      rw [noScheme]
      rfl
  | @http scheme host rest same noSlash =>
      have long : scheme.length = 7 := by
        have lengths := congrArg List.length (of_decide_eq_true same)
        rw [List.length_map, List.length_map] at lengths
        exact lengths
      have taken : (scheme ++ (host ++ 47 :: rest)).take 7 = scheme := List.take_left' long
      have dropped : (scheme ++ (host ++ 47 :: rest)).drop 7 = host ++ 47 :: rest :=
        List.drop_left' long
      have slash : strchr (host ++ 47 :: rest) 47 = some host.length :=
        strpbrk_append (fun byte member isSlash =>
          noSlash (List.mem_singleton.mp isSlash ▸ member)) List.mem_cons_self
      have isScheme : strncasecmpEq (scheme ++ (host ++ 47 :: rest)) (ascii "http://") 7 = true := by
        unfold strncasecmpEq
        rw [taken]
        exact same
      unfold RequestLine.path
      rw [if_pos isScheme, dropped, slash]
      simp

theorem urlPath_of_path {url path : Text} (named : RequestLine.path url = some path) :
    UrlPath url path := by
  unfold RequestLine.path at named
  split at named
  · next isScheme =>
      rcases cut_at (url.drop 7) [47] with absent | ⟨host, byte, rest, split, outside, isSlash⟩
      · unfold strchr at named
        rw [strpbrk_none absent] at named
        cases named
      · obtain rfl : byte = 47 := by simpa using isSlash
        have slash : strchr (host ++ 47 :: rest) 47 = some host.length :=
          strpbrk_append outside isSlash
        rw [split, slash, Option.map_some, List.drop_left] at named
        cases named
        have noSlash : 47 ∉ host := fun member => outside 47 member (by simp)
        have parts : url = url.take 7 ++ (host ++ 47 :: rest) := by
          rw [← split, List.take_append_drop]
        rw [parts]
        exact .http rest isScheme noSlash
  · split at named
    · next slash =>
        cases named
        cases url with
        | nil => cases slash
        | cons byte rest =>
            cases slash
            exact .absolute rest
    · cases named

theorem UrlPath.head {url path : Text} (named : UrlPath url path) : path.head? = some 47 := by
  cases named with
  | absolute rest => rfl
  | http rest same noSlash => rfl

/-- The words of a line of the grammar are the ones that are looked for. -/
theorem requestLineOf_iff {text path : Text} :
    RequestLineOf text path ↔ ∃ line : RequestLine, text = line.bytes ∧ line.Shaped ∧
      line.Served ∧ RequestLine.path line.url = some path := by
  constructor
  · rintro ⟨method, firstGap, url, secondGap, version, split, get, first, ⟨inUrl, named⟩, second,
      http⟩
    have started : url ≠ [] := by
      cases named with
      | absolute rest => exact List.cons_ne_nil _ _
      | http rest same noSlash => simp
    have inMethod := notBlank_of_strcasecmpEq get (by decide +kernel)
    have inVersion := notBlank_of_strcasecmpEq http (by decide +kernel)
    exact ⟨⟨method, firstGap, url, secondGap, version⟩, split,
      ⟨inMethod, first, ⟨started, inUrl⟩, second,
        fun byte head => inVersion byte (List.mem_of_mem_head? head)⟩,
      ⟨get, by simp [named.path_eq], http⟩, named.path_eq⟩
  · rintro ⟨⟨method, firstGap, url, secondGap, version⟩, split, shaped, served, named⟩
    exact ⟨method, firstGap, url, secondGap, version, split, served.method, shaped.firstGap,
      ⟨shaped.url.2, urlPath_of_path named⟩, shaped.secondGap, served.version⟩

namespace HttpConn

variable {conn : HttpConn} {region : Nat → Prop} {offset : Nat} {text : Text}

variable (conn) in
theorem checkUrl_accesses (holds : conn.readBuf.Holds offset text) (pointer : conn.url = some offset)
    (covers : ∀ index, offset ≤ index → index ≤ offset + text.length → region index) :
    conn.AccessesOnly region fun conn => conn.checkUrl offset := by
  intro other agrees
  have otherHolds := agrees.holds holds covers
  unfold checkUrl
  simp only [holds.text_eq, otherHolds.text_eq, ok_bind]
  by_cases scheme : strncasecmpEq text (ascii "http://") 7 = true
  · have long : 7 ≤ text.length := by
      have lengths := congrArg List.length (of_decide_eq_true scheme)
      simp only [List.length_map, List.length_take] at lengths
      have seven : (ascii "http://").length = 7 := rfl
      omega
    have host := holds.drop 7 long
    have otherHost := otherHolds.drop 7 long
    simp only [scheme, if_true, host.text_eq, otherHost.text_eq, ok_bind, pure_eq_ok]
    cases slash : strchr (text.drop 7) 47 with
    | none => exact ⟨_, _, _, rfl, rfl, rfl, .refl agrees⟩
    | some position =>
        have inside := Nat.le_of_lt (strpbrk_lt slash)
        simp only [Option.map_some, (host.drop position inside).load,
          (otherHost.drop position inside).load, ok_bind]
        exact .ite ⟨_, _, _, rfl, rfl, rfl, .refl agrees⟩ ⟨_, _, _, rfl, rfl, rfl, .refl agrees⟩
  · rw [Bool.not_eq_true] at scheme
    simp only [scheme, Bool.false_eq_true, if_false, pure_eq_ok, ok_bind, pointer, holds.load,
      otherHolds.load]
    rw [← pointer]
    exact .ite ⟨_, _, _, rfl, rfl, rfl, .refl agrees⟩ ⟨_, _, _, rfl, rfl, rfl, .refl agrees⟩

theorem store_accesses (holds : conn.readBuf.Holds offset text) {other : Buffer readBufferSize}
    (agrees : conn.readBuf.AgreesOn region other)
    (covers : ∀ index, offset ≤ index → index ≤ offset + text.length → region index)
    {position : Nat} (inside : position < text.length) :
    Buffer.Confined region conn.readBuf other (conn.readBuf.store (offset + position) 0)
        (other.store (offset + position) 0) ∧
      (conn.readBuf.store (offset + position) 0).Holds offset (text.take position) ∧
      (conn.readBuf.store (offset + position) 0).Holds (offset + position + 1)
        (text.drop (position + 1)) := by
  refine ⟨.store agrees (covers _ (by omega) (by omega)) 0, holds.store_nul position inside, ?_⟩
  rw [Nat.add_assoc]
  exact (holds.drop (position + 1) inside).store_before _ (by omega) 0

variable (conn) in
theorem parseUrl_accesses (holds : conn.readBuf.Holds offset text)
    (covers : ∀ index, offset ≤ index → index ≤ offset + text.length → region index) :
    conn.AccessesOnly region fun conn => conn.parseUrl offset := by
  intro other agrees
  have otherHolds := agrees.holds holds covers
  have skipped := strspn_le text blanks
  have rest := holds.drop _ skipped
  have otherRest := otherHolds.drop _ skipped
  unfold parseUrl
  simp only [holds.text_eq, otherHolds.text_eq, ok_bind, rest.text_eq, otherRest.text_eq]
  cases cut : strpbrk (text.drop (strspn text blanks)) blanks with
  | none => exact ⟨_, _, _, rfl, rfl, rfl, .refl agrees⟩
  | some gap =>
      have inside := strpbrk_lt cut
      obtain ⟨confined, urlHolds, behind⟩ := store_accesses rest agrees
        (fun index low high => covers index (by omega) (by rw [List.length_drop] at high; omega))
        inside
      rw [List.length_drop] at inside
      have length := holds.end_lt
      have store : offset + strspn text blanks + gap < readBufferSize := by omega
      have otherUrl := confined.agrees.holds urlHolds fun index low high => covers index (by omega)
        (by rw [List.length_take] at high; omega)
      have otherBehind := confined.agrees.holds behind fun index low high => covers index (by omega)
        (by rw [List.length_drop, List.length_drop] at high; omega)
      have version := behind.drop _ (strspn_le _ blanks)
      have otherVersion := otherBehind.drop _ (strspn_le _ blanks)
      simp only []
      rw [storeRead_inside store, storeRead_inside store]
      simp only [behind.text_eq, otherBehind.text_eq, version.text_eq, otherVersion.text_eq, ok_bind]
      let words : HttpConn := { conn with
        readBuf := conn.readBuf.store (offset + strspn text blanks + gap) 0
        url := some (offset + strspn text blanks)
        version := some (offset + strspn text blanks + gap + 1 +
          strspn ((text.drop (strspn text blanks)).drop (gap + 1)) blanks) }
      have checked := words.checkUrl_accesses urlHolds rfl (fun index low high =>
        covers index (by omega) (by rw [List.length_take] at high; omega)) _ confined.agrees
      exact .ite ⟨_, _, _, rfl, rfl, rfl, confined⟩ (checked.after rfl confined)

variable (conn) in
theorem parseRequestLine_accesses (holds : conn.readBuf.Holds offset text)
    (covers : ∀ index, offset ≤ index → index ≤ offset + text.length → region index) :
    conn.AccessesOnly region fun conn => conn.parseRequestLine offset := by
  intro other agrees
  have otherHolds := agrees.holds holds covers
  unfold parseRequestLine
  simp only [holds.text_eq, otherHolds.text_eq, ok_bind]
  cases cut : strpbrk text blanks with
  | none => exact ⟨_, _, _, rfl, rfl, rfl, .refl agrees⟩
  | some gap =>
      have inside := strpbrk_lt cut
      have length := holds.end_lt
      have store : offset + gap < readBufferSize := by omega
      obtain ⟨confined, method, behind⟩ := store_accesses holds agrees covers inside
      have otherMethod := confined.agrees.holds method fun index low high => covers index (by omega)
        (by rw [List.length_take] at high; omega)
      simp only []
      rw [storeRead_inside store, storeRead_inside store]
      simp only [method.text_eq, otherMethod.text_eq, ok_bind]
      let named : HttpConn := { conn with
        readBuf := conn.readBuf.store (offset + gap) 0
        url := some (offset + gap + 1)
        method := .get }
      have parsed := named.parseUrl_accesses behind (fun index low high =>
        covers index (by omega) (by rw [List.length_drop] at high; omega)) _ confined.agrees
      exact .ite ⟨_, _, _, rfl, rfl, rfl, confined⟩ (parsed.after rfl confined)

/-- The line with the NUL behind it. -/
def LineRegion (offset : Nat) (line : Text) (index : Nat) : Prop :=
  offset ≤ index ∧ index ≤ offset + line.length

instance (offset : Nat) (line : Text) : DecidablePred (LineRegion offset line) := fun index =>
  @instDecidableAnd (offset ≤ index) (index ≤ offset + line.length) _ _

/-- What `parse_request_line` is to do with a line. -/
structure MeetsLineGrammar (conn : HttpConn) (offset : Nat) (line : Text) : Prop where
  accepts : (∃ conn', conn.parseRequestLine offset = .ok (conn', .noRequest) ∧
    conn'.checkState = .header) ↔ ∃ path, RequestLineOf line path
  path : ∀ conn' path, conn.parseRequestLine offset = .ok (conn', .noRequest) →
    RequestLineOf line path → path.head? = some 47 ∧
      ∃ url, conn'.url = some url ∧ conn'.readBuf.Holds url path ∧
        offset ≤ url ∧ url + path.length ≤ offset + line.length
  rejects : (¬ ∃ path, RequestLineOf line path) →
    ∃ conn', conn.parseRequestLine offset = .ok (conn', .badRequest) ∧
      conn'.checkState = conn.checkState
  confined : conn.AccessesOnly (LineRegion offset line) fun conn => conn.parseRequestLine offset

theorem requestLineOf_accepted (holds : conn.readBuf.Holds offset text) {path : Text}
    (grammar : RequestLineOf text path) :
    ∃ conn' url, conn.parseRequestLine offset = .ok (conn', .noRequest) ∧
      conn.LineFrame conn' ∧ conn'.checkState = .header ∧ conn'.url = some url ∧
      conn'.readBuf.Holds url path := by
  obtain ⟨line, rfl, shaped, served, named⟩ := requestLineOf_iff.mp grammar
  obtain ⟨conn', ret, done, frame, outcome⟩ := parseRequestLine_shaped shaped holds
  rcases outcome with ⟨-, accepted⟩ | ⟨refused, -, -⟩
  · obtain ⟨path', url, named', pointer, urlHolds⟩ := accepted.path
    rw [named] at named'
    cases named'
    rw [accepted.ret] at done
    exact ⟨conn', url, done, frame, accepted.checkState, pointer, urlHolds⟩
  · exact absurd served refused

/-- `m_url` points into the line: else a NUL elsewhere would cut the path. -/
theorem url_inside (holds : conn.readBuf.Holds offset text) {path : Text}
    (grammar : RequestLineOf text path) {conn' : HttpConn} {url : Nat}
    (done : conn.parseRequestLine offset = .ok (conn', .noRequest)) (pointer : conn'.url = some url)
    (started : path ≠ []) : offset ≤ url ∧ url + path.length ≤ offset + text.length := by
  have covers : ∀ index, offset ≤ index → index ≤ offset + text.length →
      LineRegion offset text index := fun index low high => ⟨low, high⟩
  have agrees := Buffer.agreesOn_cleared (LineRegion offset text) conn.readBuf
  obtain ⟨parsed, ret, cleared, done', doneCleared, -, confined⟩ :=
    conn.parseRequestLine_accesses holds covers _ agrees
  have clearedHolds : { conn with readBuf := conn.readBuf.cleared (LineRegion offset text)
      }.readBuf.Holds offset text := agrees.holds holds covers
  obtain ⟨again, place, doneAgain, -, -, placed, clearedUrl⟩ :=
    requestLineOf_accepted clearedHolds grammar
  obtain ⟨once, url', doneOnce, frame, -, pointer', urlHolds⟩ :=
    requestLineOf_accepted holds grammar
  obtain ⟨rfl, rfl⟩ := Prod.mk.inj (Except.ok.inj (done.symm.trans done'))
  obtain ⟨rfl, -⟩ := Prod.mk.inj (Except.ok.inj (done.symm.trans doneOnce))
  obtain ⟨rfl, -⟩ := Prod.mk.inj (Except.ok.inj (doneCleared.symm.trans doneAgain))
  obtain rfl : url = place := Option.some.inj (pointer.symm.trans placed)
  obtain rfl : url = url' := Option.some.inj (pointer.symm.trans pointer')
  obtain ⟨first, rest, rfl⟩ := List.exists_cons_of_ne_nil started
  have inside := confined.inside_of_cleared clearedUrl.byte fun nul => urlHolds.1 <| by
    rw [← nul]
    exact List.mem_cons_self
  exact ⟨inside.1, urlHolds.end_le inside.2 (frame.blanked.kept holds.nul (by decide))⟩

variable (conn) in
/-- For every line the function meets the grammar. -/
theorem parseRequestLine_meetsGrammar (offset : Nat) (line : Text)
    (holds : conn.readBuf.Holds offset line) : conn.MeetsLineGrammar offset line := by
  have rejects : (¬ ∃ path, RequestLineOf line path) →
      ∃ conn', conn.parseRequestLine offset = .ok (conn', .badRequest) ∧
        conn'.checkState = conn.checkState := by
    intro noLine
    obtain ⟨conn', ret, done, -, outcome⟩ := conn.parseRequestLine_spec holds
    rcases outcome with ⟨words, split, shaped, served, accepted⟩ | ⟨rejected, kept⟩
    · obtain ⟨path, -, named, -, -⟩ := accepted.path
      exact absurd ⟨path, requestLineOf_iff.mpr ⟨words, split, shaped, served, named⟩⟩ noLine
    · exact ⟨conn', rejected ▸ done, kept⟩
  constructor
  · constructor
    · rintro ⟨conn', done, -⟩
      refine Classical.byContradiction fun noLine => ?_
      obtain ⟨rejected, done', -⟩ := rejects noLine
      rw [done] at done'
      cases done'
    · rintro ⟨path, grammar⟩
      obtain ⟨conn', url, done, -, state, -, -⟩ := requestLineOf_accepted holds grammar
      exact ⟨conn', done, state⟩
  · intro conn' path done grammar
    obtain ⟨parsed, url, done', -, -, pointer, urlHolds⟩ := requestLineOf_accepted holds grammar
    rw [done] at done'
    cases done'
    obtain ⟨words, -, -, -, named⟩ := requestLineOf_iff.mp grammar
    have head := (urlPath_of_path named).head
    refine ⟨head, url, pointer, urlHolds, url_inside holds grammar done pointer ?_⟩
    rintro rfl
    cases head
  · exact rejects
  · exact conn.parseRequestLine_accesses holds fun index low high => ⟨low, high⟩

/-- A connection with one line in its buffer. -/
def sampleLineConn : HttpConn :=
  { idleConn with readBuf := (Buffer.zero _).copyIn 0 (ascii "get http://a/b \tHTTP/1.1") }

theorem parseRequestLine_meetsGrammar_sampleLineConn :
    sampleLineConn.MeetsLineGrammar 0 (ascii "get http://a/b \tHTTP/1.1") :=
  parseRequestLine_meetsGrammar sampleLineConn 0 _
    ⟨by decide +kernel, List.replicate 2023 0, by decide +kernel⟩

end HttpConn

end HPLinuxServer.Http
