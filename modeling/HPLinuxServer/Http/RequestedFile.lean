import HPLinuxServer.Paths.LexicalPath
import HPLinuxServer.Http.HttpConnResources
import HPLinuxServer.Http.RequestLineGrammar
import HPLinuxServer.Http.ProcessReadProperties

/-!
# The file that is requested

`do_request` puts the path together from `doc_root` and as much of the url as the buffer has
room for, and asks nothing of what it says.
-/

set_option autoImplicit false

namespace HPLinuxServer.Http

open Memory Paths

/-- As much of the url as there is room for behind `doc_root`. -/
def urlRoom : Nat := filenameLen - docRoot.length - 1

/-- The path for a url. -/
def pathOf (url : Text) : Text := docRoot ++ url.take urlRoom

namespace HttpConn

variable {conn : HttpConn} {url : Text}

/-- The last byte of `m_real_file` is NUL. -/
def NameEnds (conn : HttpConn) : Prop := conn.realFile.bytes[filenameLen - 1]? = some 0

theorem length_docRoot : docRoot.length = 13 := by decide

variable (conn url) in
theorem joinPath_bytes :
    (conn.joinPath url).bytes = docRoot ++ (url.take urlRoom ++
      (List.replicate (urlRoom - url.length) 0 ++ conn.realFile.bytes.drop (filenameLen - 1))) := by
  have root := length_docRoot
  have size : filenameLen = 200 := rfl
  have room : urlRoom = 186 := by decide
  have length : (url.take urlRoom ++ List.replicate (urlRoom - url.length) 0).length = 186 := by
    simp only [List.length_append, List.length_take, List.length_replicate]
    omega
  have front : (docRoot ++ [0]).length = 14 := by rw [List.length_append, root]; rfl
  have started : (conn.realFile.copyIn 0 (docRoot ++ [0])).bytes =
      docRoot ++ [0] ++ conn.realFile.bytes.drop 14 := by
    rw [Buffer.copyIn_bytes (by omega), List.take_zero, List.nil_append, Nat.zero_add, front]
  have taken : (docRoot ++ [0] ++ conn.realFile.bytes.drop 14).take docRoot.length = docRoot := by
    rw [List.append_assoc, List.take_left]
  have dropped : (docRoot ++ [0] ++ conn.realFile.bytes.drop 14).drop (docRoot.length + 186) =
      conn.realFile.bytes.drop (filenameLen - 1) := by
    have split : docRoot.length + 186 = (docRoot ++ [0]).length + 185 := by omega
    rw [split, ← List.drop_drop, List.drop_left, List.drop_drop]
    rfl
  unfold joinPath
  change (Buffer.copyIn _ docRoot.length
    (url.take urlRoom ++ List.replicate (urlRoom - url.length) 0)).bytes = _
  rw [Buffer.copyIn_bytes (by omega), started, taken, length, dropped]
  simp only [List.append_assoc]

theorem joinPath_holds (ends : conn.NameEnds) (clean : 0 ∉ url) :
    (conn.joinPath url).Holds 0 (pathOf url) := by
  have noNul : 0 ∉ docRoot := by decide
  have last : conn.realFile.bytes.drop (filenameLen - 1) = [0] := by
    obtain ⟨inside, value⟩ := List.getElem?_eq_some_iff.mp ends
    rw [List.drop_eq_getElem_cons inside, value]
    have length := conn.realFile.length_bytes
    exact congrArg (0 :: ·) (List.drop_eq_nil_of_le (by rw [length]; decide))
  refine ⟨fun member => ?_, ?_⟩
  · rcases List.mem_append.mp member with inRoot | inUrl
    · exact noNul inRoot
    · exact clean (List.mem_of_mem_take inUrl)
  · rw [List.drop_zero, joinPath_bytes, last]
    unfold pathOf
    cases urlRoom - url.length with
    | zero => exact ⟨[], by simp⟩
    | succ more => exact ⟨List.replicate more 0 ++ [0], by simp [List.replicate_succ]⟩

variable (conn url) in
theorem joinPath_last :
    (conn.joinPath url).bytes[filenameLen - 1]? = conn.realFile.bytes[filenameLen - 1]? := by
  have root := length_docRoot
  have size : filenameLen = 200 := rfl
  have length : (url.take urlRoom ++ List.replicate (urlRoom - url.length) 0).length = 186 := by
    have room : urlRoom = 186 := by decide
    simp only [List.length_append, List.length_take, List.length_replicate]
    omega
  have front : (docRoot ++ [0]).length = 14 := by rw [List.length_append, root]; rfl
  unfold joinPath
  change (Buffer.copyIn _ docRoot.length
    (url.take urlRoom ++ List.replicate (urlRoom - url.length) 0)).bytes[filenameLen - 1]? = _
  rw [Buffer.copyIn_bytes_other (by omega) (.inr (by omega)),
    Buffer.copyIn_bytes_other (by omega) (.inr (by omega))]

/-! ## The life of an object -/

/-- The states of an object since it was given a connection, between the calls of its
functions and while it parses. -/
inductive Opened : HttpConn → Prop where
  | init (conn : HttpConn) (sockfd : Int) : Opened (conn.init sockfd).1
  | read {conn : HttpConn} (results : List RecvResult) :
      Opened conn → Opened (conn.read results).1
  | parsing {conn conn' : HttpConn} :
      Opened conn → conn'.unparsed = conn.unparsed → Opened conn'
  | doRequest {conn conn' : HttpConn} {files : FileSystem} {code : HttpCode} :
      Opened conn → conn.doRequest files = .ok (conn', code) → Opened conn'
  | processWrite {conn : HttpConn} (ret : HttpCode) :
      Opened conn → Opened (conn.processWrite ret).1
  | write {conn : HttpConn} (results : List WritevResult) :
      Opened conn → Opened (conn.write results).1
  | closeConn {conn : HttpConn} : Opened conn → Opened conn.closeConn.1

theorem NameEnds.of_realFile {conn' : HttpConn} (ends : conn.NameEnds)
    (same : conn'.realFile = conn.realFile) : conn'.NameEnds := by
  unfold NameEnds
  rw [same]
  exact ends

theorem reset_nameEnds (conn : HttpConn) : conn.reset.NameEnds :=
  List.getElem?_replicate_of_lt (by decide)

theorem realFile_unmap (conn : HttpConn) : conn.unmap.1.realFile = conn.realFile := by
  unfold unmap
  split <;> rfl

theorem realFile_openFile (files : FileSystem) (conn : HttpConn) (path : Text) :
    (conn.openFile files path).1.realFile = conn.realFile := by
  unfold openFile
  split
  · rfl
  · dsimp only
    split
    · rfl
    · split <;> rfl

theorem doRequest_realFile {files : FileSystem} {conn' : HttpConn} {code : HttpCode}
    (pointer : conn.urlText = .ok url) (done : conn.doRequest files = .ok (conn', code)) :
    conn'.realFile = conn.joinPath url := by
  unfold doRequest at done
  rw [pointer, ok_bind] at done
  obtain ⟨path, -, done⟩ := bind_eq_ok_iff.mp done
  have same : _ = conn' := congrArg Prod.fst (Except.ok.inj done)
  rw [← same]
  exact realFile_openFile files _ path

theorem writeLoop_nameEnds (ends : conn.NameEnds) (bytesToSend bytesHaveSend : Int)
    (results : List WritevResult) :
    (conn.writeLoop bytesToSend bytesHaveSend results).1.NameEnds := by
  induction results generalizing bytesToSend bytesHaveSend with
  | nil => exact ends
  | cons result results ih =>
      have unmapped := ends.of_realFile (realFile_unmap conn)
      cases result with
      | again => exact ends
      | error => exact unmapped
      | sent count =>
          unfold writeLoop writeRound
          dsimp only
          by_cases enough : bytesToSend - count ≤ bytesHaveSend + count
          · rw [if_pos enough]
            by_cases linger : conn.linger
            · rw [if_pos linger]
              exact reset_nameEnds _
            · rw [if_neg linger]
              exact unmapped
          · rw [if_neg enough]
            exact ih _ _

/-- `init` clears the last byte of `m_real_file`, and nothing writes to it again. -/
theorem Opened.nameEnds (opened : conn.Opened) : conn.NameEnds := by
  induction opened with
  | init conn sockfd => exact reset_nameEnds _
  | read results _ ends => exact ends.of_realFile (congrArg Prod.snd (lasting_read _ results))
  | parsing _ same ends => exact ends.of_realFile (congrArg (fun held => held.2.2.2.2.1) same)
  | @doRequest conn conn' files code _ done ends =>
      obtain ⟨url, pointer, -⟩ := bind_eq_ok_iff.mp done
      unfold NameEnds
      rw [doRequest_realFile pointer done, joinPath_last]
      exact ends
  | processWrite ret _ ends => exact ends.of_realFile (congrArg Prod.snd (lasting_processWrite _ ret))
  | @write conn results _ ends =>
      unfold HttpConn.write writeBegin
      by_cases empty : conn.writeIdx = 0
      · rw [if_pos empty]
        exact reset_nameEnds conn
      · rw [if_neg empty]
        exact writeLoop_nameEnds ends _ _ results
  | @closeConn conn _ ends =>
      refine ends.of_realFile ?_
      unfold HttpConn.closeConn
      split <;> rfl

theorem Opened.processRead {files : FileSystem} {fuel : Nat} {conn' : HttpConn} {code : HttpCode}
    (opened : conn.Opened) (done : conn.processRead files fuel = .ok (conn', code)) :
    conn'.Opened := by
  obtain ⟨⟨parsed, exit⟩, looped, ended⟩ := bind_eq_ok_iff.mp done
  have kept : parsed.Opened := opened.parsing (keeps_processReadLoop _ _ _ looped)
  cases exit with
  | code code =>
      cases ended
      exact kept
  | doRequest => exact kept.doRequest ended

/-- `process` is made of these functions. -/
theorem Opened.process {files : FileSystem} {fuel : Nat} {conn' : HttpConn} {effects : List Effect}
    (opened : conn.Opened) (done : conn.process files fuel = .ok (conn', effects)) :
    conn'.Opened := by
  obtain ⟨⟨next, code⟩, read, ended⟩ := bind_eq_ok_iff.mp done
  have kept := opened.processRead read
  dsimp only at ended
  split at ended
  · cases ended
    exact kept
  · split at ended
    · cases ended
      exact kept.processWrite code
    · cases ended
      exact (kept.processWrite code).closeConn

/-- `parse_request_line` has just accepted a line, with this string at `m_url`. -/
def Accepted (conn : HttpConn) (url : Text) : Prop :=
  ∃ (before : HttpConn) (offset : Nat) (line : Text), before.Opened ∧
    before.readBuf.Holds offset line ∧
    before.parseRequestLine offset = .ok (conn, .noRequest) ∧ conn.urlText = .ok url

theorem Accepted.opened (accepted : conn.Accepted url) : conn.Opened := by
  obtain ⟨before, offset, line, opened, -, parsed, -⟩ := accepted
  exact opened.parsing (keeps_parseRequestLine offset _ parsed)

theorem Accepted.slash (accepted : conn.Accepted url) : 0 ∉ url ∧ ∃ rest, url = 47 :: rest := by
  obtain ⟨before, offset, line, -, holds, parsed, pointer⟩ := accepted
  obtain ⟨conn', ret, done, -, outcome⟩ := before.parseRequestLine_spec holds
  rw [parsed] at done
  cases done
  rcases outcome with ⟨words, -, -, -, accepted⟩ | ⟨refused, -⟩
  · obtain ⟨path, place, named, place_eq, urlHolds⟩ := accepted.path
    unfold urlText at pointer
    rw [place_eq] at pointer
    obtain rfl : path = url := Except.ok.inj (urlHolds.text_eq.symm.trans pointer)
    have head := (urlPath_of_path named).head
    cases path with
    | nil => cases head
    | cons byte rest =>
        cases head
        exact ⟨urlHolds.1, rest, rfl⟩
  · cases refused

/-- The path that `do_request` reads from `m_real_file`. -/
theorem Accepted.path (accepted : conn.Accepted url) :
    (conn.joinPath url).text 0 = .ok (pathOf url) :=
  (joinPath_holds accepted.opened.nameEnds accepted.slash.1).text_eq

/-- The string in `m_real_file`. -/
def fileName (conn : HttpConn) : Except Fault Text := conn.realFile.text 0

/-- What `do_request` leaves in `m_real_file`. -/
theorem Accepted.fileName (accepted : conn.Accepted url) {files : FileSystem} {conn' : HttpConn}
    {code : HttpCode} (done : conn.doRequest files = .ok (conn', code)) :
    conn'.fileName = .ok (pathOf url) := by
  have path := accepted.path
  obtain ⟨-, -, -, -, -, -, pointer⟩ := accepted
  unfold HttpConn.fileName
  rw [doRequest_realFile pointer done]
  exact path

theorem Accepted.doRequest (accepted : conn.Accepted url) (files : FileSystem) :
    conn.doRequest files =
      .ok (openFile files { conn with realFile := conn.joinPath url } (pathOf url)) := by
  have path := accepted.path
  obtain ⟨-, -, -, -, -, -, pointer⟩ := accepted
  exact doRequest_of_path pointer path

theorem length_pathOf_lt (url : Text) : (pathOf url).length < filenameLen := by
  have root := length_docRoot
  have size : filenameLen = 200 := rfl
  have room : urlRoom = 186 := by decide
  unfold pathOf
  rw [List.length_append, List.length_take]
  omega

theorem pathOf_inj {url' : Text} : pathOf url = pathOf url' ↔ url.take urlRoom = url'.take urlRoom :=
  List.append_right_inj docRoot

/-! ## Lines that are accepted -/

/-- A connection that has received a line. -/
def lineConn (line : Text) : HttpConn := ((idleConn.init 5).1.read [.data line, .again]).1

/-- What `parse_request_line` makes of it. -/
def acceptedConn (line : Text) : HttpConn :=
  match (lineConn line).parseRequestLine 0 with
  | .ok (conn, _) => conn
  | .error _ => idleConn

theorem lineConn_eq {line : Text} (fits : line.length < readBufferSize) :
    lineConn line = { idleConn with sockfd := 5 }.place line := by
  have start : (idleConn.init 5).1.readIdx = 0 := rfl
  have room : line.take (readBufferSize - 0) = line := List.take_of_length_le (Nat.le_of_lt fits)
  have more : recv (readBufferSize - line.length) .again = .again :=
    if_neg (by omega)
  have received : recv (readBufferSize - 0) (.data line) = .data line := by
    rw [recv, if_neg (by decide), room]
  unfold lineConn read
  rw [start, if_neg (by decide)]
  simp only [readLoop, start, received, Nat.zero_add, more]
  rfl

theorem lineConn_holds {line : Text} (clean : 0 ∉ line) (fits : line.length < readBufferSize) :
    (lineConn line).readBuf.Holds 0 line := by
  rw [lineConn_eq fits]
  exact place_holds _ clean fits

theorem acceptedConn_accepted {line path : Text} (grammar : RequestLineOf line path)
    (clean : 0 ∉ line) (fits : line.length < readBufferSize) : (acceptedConn line).Accepted path := by
  have holds := lineConn_holds clean fits
  obtain ⟨conn', url, done, -, -, pointer, urlHolds⟩ := requestLineOf_accepted holds grammar
  have same : acceptedConn line = conn' := by
    unfold acceptedConn
    rw [done]
  rw [same]
  refine ⟨lineConn line, 0, line, .read _ (.init idleConn 5), holds, done, ?_⟩
  unfold urlText
  rw [pointer]
  exact urlHolds.text_eq

/-- A file system in which every file is there. -/
def everyFile : FileSystem where
  stat := fun _ => some { mode := 0o100644, size := 5 }
  map := fun _ _ => 4096

theorem openFile_everyFile (conn : HttpConn) (path : Text) :
    ∃ done, conn.openFile everyFile path = (done, .fileRequest) :=
  ⟨_, rfl⟩

/-! ## Urls and paths -/

/-- Every path ends in its buffer. Two urls have the same one if they do not differ in as many
bytes as there is room for. -/
theorem doRequest_tellsApart_iff (files : FileSystem) (first second : HttpConn) (url url' : Text)
    (accepted : first.Accepted url) (accepted' : second.Accepted url') :
    (∃ done code name, first.doRequest files = .ok (done, code) ∧ done.fileName = .ok name ∧
        name.length < filenameLen) ∧
      ∀ done done', first.doRequest files = .ok (done, .fileRequest) →
        second.doRequest files = .ok (done', .fileRequest) →
        ((url ≠ url' → done.fileName ≠ done'.fileName) ↔
          url = url' ∨ url.take urlRoom ≠ url'.take urlRoom) := by
  constructor
  · have requested := accepted.doRequest files
    exact ⟨_, _, pathOf url, requested, accepted.fileName requested, length_pathOf_lt url⟩
  · intro done done' opens opens'
    rw [accepted.fileName opens, accepted'.fileName opens']
    have same : (Except.ok (pathOf url) : Except Fault Text) = .ok (pathOf url') ↔
        url.take urlRoom = url'.take urlRoom :=
      ⟨fun same => pathOf_inj.mp (Except.ok.inj same), fun same => congrArg _ (pathOf_inj.mpr same)⟩
    simp only [ne_eq, same]
    constructor
    · intro apart
      rcases Decidable.em (url = url') with equal | different
      · exact .inl equal
      · exact .inr (apart different)
    · rintro (equal | apart) different
      · exact absurd equal different
      · exact apart

/-- A url of 187 bytes, one more than there is room for. -/
def longUrl (last : UInt8) : Text := 47 :: (List.replicate 185 97 ++ [last])

def longLine (last : UInt8) : Text := ascii "GET " ++ longUrl last ++ ascii " HTTP/1.1"

theorem longLine_accepted {last : UInt8} (letter : last = 98 ∨ last = 99) :
    (acceptedConn (longLine last)).Accepted (longUrl last) := by
  have grammar : RequestLineOf (longLine last) (longUrl last) := by
    have method : ascii "GET " = ascii "GET" ++ [32] := by decide +kernel
    have version : ascii " HTTP/1.1" = [32] ++ ascii "HTTP/1.1" := by decide +kernel
    refine ⟨ascii "GET", [32], longUrl last, [32], ascii "HTTP/1.1", ?_, by decide +kernel,
      by decide +kernel, ⟨?_, .absolute _⟩, by decide +kernel, by decide +kernel⟩
    · unfold longLine
      rw [method, version]
      simp only [List.append_assoc]
    · rcases letter with rfl | rfl
      · decide +kernel
      · decide +kernel
  have clean : 0 ∉ longLine last := by
    rcases letter with rfl | rfl
    · decide +kernel
    · decide +kernel
  exact acceptedConn_accepted grammar clean (by
    rcases letter with rfl | rfl
    · decide +kernel
    · decide +kernel)

theorem doRequest_tellsApart_iff_longUrl :
    (∃ done code name, (acceptedConn (longLine 98)).doRequest everyFile = .ok (done, code) ∧
        done.fileName = .ok name ∧ name.length < filenameLen) ∧
      ∀ done done', (acceptedConn (longLine 98)).doRequest everyFile = .ok (done, .fileRequest) →
        (acceptedConn (longLine 99)).doRequest everyFile = .ok (done', .fileRequest) →
        ((longUrl 98 ≠ longUrl 99 → done.fileName ≠ done'.fileName) ↔
          longUrl 98 = longUrl 99 ∨ (longUrl 98).take urlRoom ≠ (longUrl 99).take urlRoom) :=
  doRequest_tellsApart_iff everyFile _ _ _ _ (longLine_accepted (.inl rfl))
    (longLine_accepted (.inr rfl))

/-- Two urls that differ in the last byte only are answered with the same file. -/
theorem doRequest_confusesUrls :
    ∃ done done', (acceptedConn (longLine 98)).Accepted (longUrl 98) ∧
      (acceptedConn (longLine 99)).Accepted (longUrl 99) ∧
      (acceptedConn (longLine 98)).doRequest everyFile = .ok (done, .fileRequest) ∧
      (acceptedConn (longLine 99)).doRequest everyFile = .ok (done', .fileRequest) ∧
      longUrl 98 ≠ longUrl 99 ∧ done.fileName = done'.fileName := by
  have accepted : (acceptedConn (longLine 98)).Accepted (longUrl 98) :=
    longLine_accepted (.inl rfl)
  have accepted' : (acceptedConn (longLine 99)).Accepted (longUrl 99) :=
    longLine_accepted (.inr rfl)
  have opens := accepted.doRequest everyFile
  have opens' := accepted'.doRequest everyFile
  obtain ⟨done, opened⟩ := openFile_everyFile
    { acceptedConn (longLine 98) with realFile := (acceptedConn (longLine 98)).joinPath (longUrl 98) }
    (pathOf (longUrl 98))
  obtain ⟨done', opened'⟩ := openFile_everyFile
    { acceptedConn (longLine 99) with realFile := (acceptedConn (longLine 99)).joinPath (longUrl 99) }
    (pathOf (longUrl 99))
  rw [opened] at opens
  rw [opened'] at opens'
  refine ⟨done, done', accepted, accepted', opens, opens', by decide +kernel, ?_⟩
  rw [accepted.fileName opens, accepted'.fileName opens']
  exact congrArg Except.ok (pathOf_inj.mpr (by decide +kernel))

/-! ## The document root -/

/-- The path that `do_request` looks for is `doc_root` or lies below it. -/
def StaysBelowRoot (conn : HttpConn) : Prop :=
  ∃ url path, conn.urlText = .ok url ∧ (conn.joinPath url).text 0 = .ok path ∧
    resolved docRoot <+: resolved path

/-- The way that a url goes from `doc_root`, as far as the buffer has room for it. -/
def urlRoute (url : Text) : Route Text := route (components (url.take urlRoom))

/-- The path of a url is resolved from `doc_root` on. -/
theorem resolved_pathOf (rest : Text) :
    resolved (pathOf (47 :: rest)) = resolve (resolved docRoot) (components ((47 :: rest).take urlRoom)) := by
  have more : urlRoom = urlRoom - 1 + 1 := by decide
  unfold resolved pathOf
  rw [more, List.take_succ_cons, components_append, resolve_append, resolve_slash]

/-- The path stays below `doc_root` if the url comes back by the directories that it leaves. -/
theorem staysBelowRoot_iff (conn : HttpConn) (url : Text) (accepted : conn.Accepted url) :
    conn.StaysBelowRoot ↔
      (resolved docRoot).drop ((resolved docRoot).length - (urlRoute url).ups) <+:
        (urlRoute url).names := by
  have path := accepted.path
  obtain ⟨rest, slash⟩ := accepted.slash.2
  obtain ⟨-, -, -, -, -, -, pointer⟩ := accepted
  have below := below_resolve_iff (resolved docRoot) (components (url.take urlRoom))
  rw [slash, ← resolved_pathOf, ← slash] at below
  rw [urlRoute, ← below]
  constructor
  · rintro ⟨url', path', pointer', path_eq, stays⟩
    obtain rfl : url = url' := Except.ok.inj (pointer.symm.trans pointer')
    obtain rfl : pathOf url = path' := Except.ok.inj (path.symm.trans path_eq)
    exact stays
  · intro stays
    exact ⟨url, pathOf url, pointer, path, stays⟩

/-- A request for a file that is none of the server's. -/
def passwdLine : Text := ascii "GET /../../../etc/passwd HTTP/1.1"

theorem passwdLine_accepted : (acceptedConn passwdLine).Accepted (ascii "/../../../etc/passwd") :=
  acceptedConn_accepted
    ⟨ascii "GET", [32], ascii "/../../../etc/passwd", [32], ascii "HTTP/1.1", by decide +kernel,
      by decide +kernel, by decide +kernel, ⟨by decide +kernel, .absolute (ascii "../../../etc/passwd")⟩,
      by decide +kernel, by decide +kernel⟩
    (by decide +kernel) (by decide +kernel)

theorem staysBelowRoot_iff_passwdLine :
    (acceptedConn passwdLine).StaysBelowRoot ↔
      (resolved docRoot).drop ((resolved docRoot).length -
          (urlRoute (ascii "/../../../etc/passwd")).ups) <+:
        (urlRoute (ascii "/../../../etc/passwd")).names :=
  staysBelowRoot_iff _ _ passwdLine_accepted

/-- It is accepted, and leaves the document root. -/
theorem doRequest_leavesRoot :
    (acceptedConn passwdLine).Accepted (ascii "/../../../etc/passwd") ∧
      ¬ (acceptedConn passwdLine).StaysBelowRoot := by
  refine ⟨passwdLine_accepted, ?_⟩
  rintro ⟨url, path, pointer, path_eq, stays⟩
  have read := passwdLine_accepted.path
  obtain ⟨-, -, -, -, -, -, pointer'⟩ := passwdLine_accepted
  obtain rfl := Except.ok.inj (pointer.symm.trans pointer')
  obtain rfl := Except.ok.inj (path_eq.symm.trans read)
  exact absurd stays (by decide +kernel)

end HttpConn

end HPLinuxServer.Http
