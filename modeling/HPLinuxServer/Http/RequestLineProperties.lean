import HPLinuxServer.Http.ParseLineProperties

/-!
# What `parse_request_line` accepts

It accepts the request lines of the grammar and no others, and it writes to the
buffer only where blanks were.
-/

set_option autoImplicit false

namespace HPLinuxServer.Http

open Memory

/-- Some blanks have become NUL. -/
def Blanked {size : Nat} (before after : Buffer size) : Prop :=
  ∀ i : Nat, after.bytes[i]? = before.bytes[i]? ∨
    (∃ blank ∈ blanks, before.bytes[i]? = some blank) ∧ after.bytes[i]? = some 0

namespace Blanked

variable {size : Nat} {before after : Buffer size}

theorem refl (buffer : Buffer size) : Blanked buffer buffer := fun _ => .inl rfl

theorem trans {middle : Buffer size} (first : Blanked before middle)
    (second : Blanked middle after) : Blanked before after := by
  intro i
  rcases second i with same | ⟨⟨blank, isBlank, found⟩, nul⟩
  · rw [same]
    exact first i
  · right
    refine ⟨?_, nul⟩
    rcases first i with same | ⟨wasBlank, -⟩
    · exact ⟨blank, isBlank, by rw [← same, found]⟩
    · exact wasBlank

theorem store {index : Nat} {blank : UInt8} (found : before.bytes[index]? = some blank)
    (isBlank : blank ∈ blanks) : Blanked before (before.store index 0) := by
  intro i
  by_cases here : index = i
  · subst here
    right
    have inside : index < size := by
      rw [← before.length_bytes]
      exact (List.getElem?_eq_some_iff.mp found).1
    exact ⟨⟨blank, isBlank, found⟩, Buffer.store_bytes_self inside 0⟩
  · exact .inl (Buffer.store_bytes_other here 0)

theorem kept (blanked : Blanked before after) {index : Nat} {byte : UInt8}
    (found : before.bytes[index]? = some byte) (notBlank : byte ∉ blanks) :
    after.bytes[index]? = some byte := by
  rcases blanked index with same | ⟨⟨blank, isBlank, wasBlank⟩, -⟩
  · rw [same, found]
  · rw [found] at wasBlank
    cases wasBlank
    exact absurd isBlank notBlank

end Blanked

namespace HttpConn

/-- What `parse_request_line` may change. -/
structure LineFrame (conn conn' : HttpConn) : Prop where
  others : conn' = { conn with
    readBuf := conn'.readBuf
    method := conn'.method
    url := conn'.url
    version := conn'.version
    checkState := conn'.checkState }
  blanked : Blanked conn.readBuf conn'.readBuf

/-- The request line was accepted, and `m_url` is its path. -/
structure AcceptedUrl (conn' : HttpConn) (ret : HttpCode) (url : Text) : Prop where
  ret : ret = .noRequest
  checkState : conn'.checkState = .header
  path : ∃ path offset, RequestLine.path url = some path ∧ conn'.url = some offset ∧
    conn'.readBuf.Holds offset path

variable {conn : HttpConn} {text : Nat}

variable (conn) in
theorem checkUrl_spec {url : Text} (holds : conn.readBuf.Holds text url)
    (pointer : conn.url = some text) :
    ∃ conn' ret, conn.checkUrl text = .ok (conn', ret) ∧
      conn' = { conn with url := conn'.url, checkState := conn'.checkState } ∧
      (AcceptedUrl conn' ret url ∨
        RequestLine.path url = none ∧ ret = .badRequest ∧ conn'.checkState = conn.checkState) := by
  unfold checkUrl
  simp only [holds.text_eq, ok_bind]
  by_cases scheme : strncasecmpEq url (ascii "http://") 7 = true
  · have long : 7 ≤ url.length := by
      have lengths := congrArg List.length (of_decide_eq_true scheme)
      simp only [List.length_map, List.length_take] at lengths
      have seven : (ascii "http://").length = 7 := rfl
      omega
    have path : RequestLine.path url =
        (strchr (url.drop 7) 47).map fun slash => (url.drop 7).drop slash := if_pos scheme
    have host := holds.drop 7 long
    simp only [scheme, if_true, host.text_eq, ok_bind, pure_eq_ok]
    rcases cut_at (url.drop 7) [47] with absent | ⟨front, byte, rest, split, outside, isSlash⟩
    · have noSlash : strchr (url.drop 7) 47 = none := strpbrk_none absent
      simp only [noSlash, Option.map_none] at path ⊢
      exact ⟨_, _, rfl, rfl, .inr ⟨path, rfl, rfl⟩⟩
    · obtain rfl : byte = 47 := by simpa using isSlash
      have slash : strchr (url.drop 7) 47 = some front.length := by
        unfold strchr
        rw [split]
        exact strpbrk_append outside isSlash
      have pathHolds := host.drop front.length (by rw [split]; simp)
      have behind : (url.drop 7).drop front.length = 47 :: rest := by rw [split, List.drop_left]
      have first := pathHolds.load
      rw [behind] at first
      simp only [slash, Option.map_some] at path
      simp only [slash, Option.map_some, first, ok_bind]
      exact ⟨_, _, rfl, rfl, .inl ⟨rfl, rfl, _, _, path, rfl, pathHolds⟩⟩
  · simp only [scheme, pure_eq_ok, ok_bind, pointer, holds.load]
    have path : RequestLine.path url = if url.head? = some 47 then some url else none :=
      if_neg scheme
    by_cases slash : url.head? = some 47
    · rw [if_pos slash] at path
      simp only [slash]
      exact ⟨_, _, rfl, by simp, .inl ⟨rfl, rfl, url, text, path, rfl, holds⟩⟩
    · have other : url.head?.getD 0 ≠ 47 := by
        cases url with
        | nil => decide
        | cons byte url => simpa using slash
      rw [if_neg slash] at path
      simp only [if_pos other]
      exact ⟨_, _, rfl, rfl, .inr ⟨path, rfl, rfl⟩⟩

variable (conn) in
theorem parseUrl_short {gap url : Text} (holds : conn.readBuf.Holds text (gap ++ url))
    (inGap : ∀ byte ∈ gap, byte ∈ blanks) (inUrl : ∀ byte ∈ url, byte ∉ blanks) :
    ∃ conn', conn.parseUrl text = .ok (conn', .badRequest) ∧ conn.LineFrame conn' ∧
      conn'.checkState = conn.checkState := by
  have skipped : strspn (gap ++ url) blanks = gap.length :=
    strspn_append inGap fun byte first => inUrl byte (List.mem_of_mem_head? first)
  have urlHolds := holds.drop gap.length (by simp)
  rw [List.drop_left] at urlHolds
  unfold parseUrl
  simp only [holds.text_eq, skipped, ok_bind, urlHolds.text_eq, strpbrk_none inUrl, pure_eq_ok]
  exact ⟨_, rfl, ⟨rfl, Blanked.refl _⟩, rfl⟩

variable (conn) in
theorem parseUrl_spec {gap url secondGap version : Text} {blank : UInt8}
    (holds : conn.readBuf.Holds text (gap ++ (url ++ blank :: (secondGap ++ version))))
    (inGap : ∀ byte ∈ gap, byte ∈ blanks) (inUrl : ∀ byte ∈ url, byte ∉ blanks)
    (started : url ≠ []) (isBlank : blank ∈ blanks) (inSecond : ∀ byte ∈ secondGap, byte ∈ blanks)
    (behind : ∀ byte ∈ version.head?, byte ∉ blanks) :
    ∃ conn' ret, conn.parseUrl text = .ok (conn', ret) ∧ conn.LineFrame conn' ∧
      (strcasecmpEq version (ascii "HTTP/1.1") = true ∧ AcceptedUrl conn' ret url ∨
        ¬ (strcasecmpEq version (ascii "HTTP/1.1") = true ∧ (RequestLine.path url).isSome) ∧
          ret = .badRequest ∧ conn'.checkState = conn.checkState) := by
  have skipped : strspn (gap ++ (url ++ blank :: (secondGap ++ version))) blanks = gap.length := by
    apply strspn_append inGap
    intro byte first
    cases url with
    | nil => exact absurd rfl started
    | cons head url =>
        obtain rfl : head = byte := by simpa using first
        exact inUrl head List.mem_cons_self
  have cut : strpbrk (url ++ blank :: (secondGap ++ version)) blanks = some url.length :=
    strpbrk_append inUrl isBlank
  have restHolds := holds.drop gap.length (by simp)
  rw [List.drop_left] at restHolds
  have inside : text + gap.length + url.length < readBufferSize := by
    have bound := restHolds.end_lt
    simp only [List.length_append, List.length_cons] at bound
    omega
  have urlHolds := restHolds.store_nul url.length (by simp)
  rw [List.take_left] at urlHolds
  have gapHolds := (restHolds.drop (url.length + 1) (by simp)).store_before
    (text + gap.length + url.length) (by omega) 0
  rw [← List.drop_drop, List.drop_left, List.drop_one, List.tail_cons, ← Nat.add_assoc] at gapHolds
  have skippedSecond : strspn (secondGap ++ version) blanks = secondGap.length :=
    strspn_append inSecond behind
  have versionHolds := gapHolds.drop secondGap.length (by simp)
  rw [List.drop_left] at versionHolds
  have blanked : Blanked conn.readBuf
      (conn.readBuf.store (text + gap.length + url.length) 0) := by
    have here := (restHolds.drop url.length (by simp)).byte
    rw [List.drop_left] at here
    exact Blanked.store here isBlank
  unfold parseUrl
  simp only [holds.text_eq, skipped, ok_bind, restHolds.text_eq, cut]
  rw [storeRead_inside (by exact inside)]
  simp only [gapHolds.text_eq, skippedSecond, ok_bind, versionHolds.text_eq]
  by_cases served : strcasecmpEq version (ascii "HTTP/1.1") = true
  · simp only [served, not_true_eq_false, if_false, true_and]
    let words : HttpConn := { conn with
      readBuf := conn.readBuf.store (text + gap.length + url.length) 0
      url := some (text + gap.length)
      version := some (text + gap.length + url.length + 1 + secondGap.length) }
    obtain ⟨conn', ret, checked, same, outcome⟩ := words.checkUrl_spec urlHolds rfl
    refine ⟨conn', ret, checked, ⟨?_, ?_⟩, ?_⟩
    · rw [same]
    · rw [same]
      exact blanked
    · rcases outcome with accepted | ⟨noPath, rejected, state⟩
      · exact .inl accepted
      · exact .inr ⟨by simp [noPath], rejected, state⟩
  · simp only [served, pure_eq_ok]
    exact ⟨_, _, rfl, ⟨rfl, blanked⟩, .inr ⟨by simp, rfl, rfl⟩⟩

theorem LineFrame.trans {conn' conn'' : HttpConn} (first : conn.LineFrame conn')
    (second : conn'.LineFrame conn'') : conn.LineFrame conn'' := by
  constructor
  · rw [second.others, first.others]
  · exact first.blanked.trans second.blanked

theorem parseRequestLine_method {method rest : Text} {blank : UInt8}
    (holds : conn.readBuf.Holds text (method ++ blank :: rest))
    (inMethod : ∀ byte ∈ method, byte ∉ blanks) (isBlank : blank ∈ blanks) :
    ∃ conn', conn.LineFrame conn' ∧ conn'.checkState = conn.checkState ∧
      conn'.readBuf.Holds (text + method.length + 1) rest ∧
      conn.parseRequestLine text =
        if ¬ strcasecmpEq method (ascii "GET") then .ok (conn', .badRequest)
        else { conn' with method := .get }.parseUrl (text + method.length + 1) := by
  have cut : strpbrk (method ++ blank :: rest) blanks = some method.length :=
    strpbrk_append inMethod isBlank
  have inside : text + method.length < readBufferSize := by
    have bound := holds.end_lt
    simp only [List.length_append, List.length_cons] at bound
    omega
  have methodHolds := holds.store_nul method.length (by simp)
  rw [List.take_left] at methodHolds
  have restHolds := (holds.drop (method.length + 1) (by simp)).store_before
    (text + method.length) (by omega) 0
  rw [← List.drop_drop, List.drop_left, List.drop_one, List.tail_cons, ← Nat.add_assoc]
    at restHolds
  refine ⟨{ conn with
    readBuf := conn.readBuf.store (text + method.length) 0
    url := some (text + method.length + 1) }, ⟨rfl, ?_⟩, rfl, restHolds, ?_⟩
  · have here := (holds.drop method.length (by simp)).byte
    rw [List.drop_left] at here
    exact Blanked.store here isBlank
  · unfold parseRequestLine
    simp only [holds.text_eq, ok_bind, cut]
    rw [storeRead_inside inside]
    simp only [methodHolds.text_eq, ok_bind, pure_eq_ok]

/-- A text with the words of a request line is accepted if they are the right ones. -/
theorem parseRequestLine_shaped {line : RequestLine} (shaped : line.Shaped)
    (holds : conn.readBuf.Holds text line.bytes) :
    ∃ conn' ret, conn.parseRequestLine text = .ok (conn', ret) ∧ conn.LineFrame conn' ∧
      (line.Served ∧ AcceptedUrl conn' ret line.url ∨
        ¬ line.Served ∧ ret = .badRequest ∧ conn'.checkState = conn.checkState) := by
  obtain ⟨method, firstGap, url, secondGap, version⟩ := line
  obtain ⟨inMethod, ⟨firstStarted, inFirst⟩, ⟨urlStarted, inUrl⟩, ⟨secondStarted, inSecond⟩,
    behind⟩ := shaped
  obtain ⟨first, firstGap, rfl⟩ := List.exists_cons_of_ne_nil firstStarted
  obtain ⟨second, secondGap, rfl⟩ := List.exists_cons_of_ne_nil secondStarted
  simp only [List.forall_mem_cons] at inFirst inSecond
  have bytes : RequestLine.bytes ⟨method, first :: firstGap, url, second :: secondGap, version⟩ =
      method ++ first :: (firstGap ++ (url ++ second :: (secondGap ++ version))) := by
    simp [RequestLine.bytes]
  rw [bytes] at holds
  obtain ⟨named, frame, state, restHolds, parsed⟩ :=
    parseRequestLine_method holds inMethod inFirst.1
  rw [parsed]
  by_cases get : strcasecmpEq method (ascii "GET") = true
  · rw [if_neg (by simp [get])]
    obtain ⟨conn', ret, done, later, outcome⟩ :=
      parseUrl_spec { named with method := .get } restHolds inFirst.2 inUrl urlStarted
        inSecond.1 inSecond.2 behind
    have named' : conn.LineFrame { named with method := .get } :=
      ⟨by rw [frame.others], frame.blanked⟩
    refine ⟨conn', ret, done, named'.trans later, ?_⟩
    rcases outcome with ⟨http, accepted⟩ | ⟨other, rejected, kept⟩
    · left
      obtain ⟨path, -, found, -, -⟩ := accepted.path
      exact ⟨⟨get, by simp [found], http⟩, accepted⟩
    · right
      exact ⟨fun served => other ⟨served.version, served.url⟩, rejected, kept.trans state⟩
  · rw [if_pos (by simpa using get)]
    exact ⟨named, _, rfl, frame, .inr ⟨fun served => get served.method, rfl, state⟩⟩

variable (conn) in
theorem parseRequestLine_spec {line : Text} (holds : conn.readBuf.Holds text line) :
    ∃ conn' ret, conn.parseRequestLine text = .ok (conn', ret) ∧ conn.LineFrame conn' ∧
      ((∃ words : RequestLine, line = words.bytes ∧ words.Shaped ∧ words.Served ∧
          AcceptedUrl conn' ret words.url) ∨
        ret = .badRequest ∧ conn'.checkState = conn.checkState) := by
  rcases cut_at line blanks with oneWord | ⟨method, first, rest, rfl, inMethod, isFirst⟩
  · unfold parseRequestLine
    simp only [holds.text_eq, ok_bind, strpbrk_none oneWord, pure_eq_ok]
    exact ⟨_, _, rfl, ⟨rfl, Blanked.refl _⟩, .inr ⟨rfl, rfl⟩⟩
  · obtain ⟨firstGap, rest, rfl, inFirst, stop⟩ := cut_behind rest blanks
    rcases cut_at rest blanks with twoWords | ⟨url, second, rest, rfl, inUrl, isSecond⟩
    · obtain ⟨named, frame, state, restHolds, parsed⟩ :=
        parseRequestLine_method holds inMethod isFirst
      rw [parsed]
      by_cases get : strcasecmpEq method (ascii "GET") = true
      · rw [if_neg (by simp [get])]
        obtain ⟨conn', done, later, kept⟩ :=
          parseUrl_short { named with method := .get } restHolds inFirst twoWords
        have named' : conn.LineFrame { named with method := .get } :=
          ⟨by rw [frame.others], frame.blanked⟩
        exact ⟨conn', _, done, named'.trans later, .inr ⟨rfl, kept.trans state⟩⟩
      · rw [if_pos (by simpa using get)]
        exact ⟨named, _, rfl, frame, .inr ⟨rfl, state⟩⟩
    · obtain ⟨secondGap, version, rfl, inSecond, behind⟩ := cut_behind rest blanks
      have started : url ≠ [] := by
        rintro rfl
        exact stop second rfl isSecond
      let words : RequestLine := ⟨method, first :: firstGap, url, second :: secondGap, version⟩
      have shaped : words.Shaped :=
        ⟨inMethod, ⟨List.cons_ne_nil _ _, by simpa [words, isFirst] using inFirst⟩,
          ⟨started, inUrl⟩, ⟨List.cons_ne_nil _ _, by simpa [words, isSecond] using inSecond⟩,
          behind⟩
      have bytes : method ++ first :: (firstGap ++ (url ++ second :: (secondGap ++ version))) =
          words.bytes := by
        simp [RequestLine.bytes, words]
      rw [bytes] at holds
      obtain ⟨conn', ret, done, frame, outcome⟩ := parseRequestLine_shaped shaped holds
      refine ⟨conn', ret, done, frame, ?_⟩
      rcases outcome with ⟨served, accepted⟩ | ⟨-, rejected, kept⟩
      · exact .inl ⟨words, bytes, shaped, served, accepted⟩
      · exact .inr ⟨rejected, kept⟩

end HttpConn

end HPLinuxServer.Http
