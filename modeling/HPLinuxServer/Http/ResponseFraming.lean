import HPLinuxServer.Http.Delivery
import HPLinuxServer.Http.HttpConnResources

/-!
# The framing of a response

What `process_write` puts together: a status line, the length of the body, whether the
connection is kept, an empty line, and the body. The length goes through an `int`, and the
page for an empty file is put together in vain.
-/

set_option autoImplicit false

namespace HPLinuxServer.Http

open Memory Refinement

def statusLine (status : Int) (title : Text) : Text :=
  ascii "HTTP/1.1 " ++ decimal status ++ ascii " " ++ title ++ ascii "\r\n"

def contentLengthLine (contentLen : Int) : Text :=
  ascii "Content-Length: " ++ decimal contentLen ++ ascii "\r\n"

def connectionLine (keepAlive : Bool) : Text :=
  ascii "Connection: " ++ ascii (if keepAlive then "keep-alive" else "close") ++ ascii "\r\n"

/-- The header of a response, with the empty line. -/
def responseHead (status : Int) (title : Text) (contentLen : Int) (keepAlive : Bool) : Text :=
  statusLine status title ++ (contentLengthLine contentLen ++ (connectionLine keepAlive ++ crlf))

theorem responseHead_contentLen {status : Int} {title : Text} {first second : Int}
    {keepAlive : Bool}
    (same : responseHead status title first keepAlive =
      responseHead status title second keepAlive) : first = second := by
  have lines := List.append_cancel_right (List.append_cancel_left same)
  exact decimal_injective (List.append_cancel_left (List.append_cancel_right lines))

theorem length_statusLine {status : Int} {title : Text}
    (short : (decimal status).length + title.length ≤ 800) :
    (statusLine status title).length ≤ 812 := by
  have lengths : (ascii "HTTP/1.1 ").length = 9 ∧ (ascii " ").length = 1 ∧
      (ascii "\r\n").length = 2 := by decide
  unfold statusLine
  simp only [List.length_append]
  omega

theorem length_contentLengthLine {contentLen : Int} (low : -2147483648 ≤ contentLen)
    (high : contentLen ≤ 2147483647) : (contentLengthLine contentLen).length ≤ 29 := by
  have digits := length_decimal_le low high
  have lengths : (ascii "Content-Length: ").length = 16 ∧ (ascii "\r\n").length = 2 := by decide
  unfold contentLengthLine
  simp only [List.length_append]
  omega

theorem length_connectionLine (keepAlive : Bool) : (connectionLine keepAlive).length ≤ 24 := by
  cases keepAlive <;> decide

namespace HttpCode

/-- `process_read` returns it for a request that is answered. -/
def Answers : HttpCode → Prop
  | noRequest => False
  | getRequest => False
  | badRequest => True
  | noResource => True
  | forbiddenRequest => True
  | fileRequest => True
  | internalError => True
  | closeConnection => False

instance : ∀ ret : HttpCode, Decidable ret.Answers
  | noRequest => inferInstanceAs (Decidable False)
  | getRequest => inferInstanceAs (Decidable False)
  | badRequest => inferInstanceAs (Decidable True)
  | noResource => inferInstanceAs (Decidable True)
  | forbiddenRequest => inferInstanceAs (Decidable True)
  | fileRequest => inferInstanceAs (Decidable True)
  | internalError => inferInstanceAs (Decidable True)
  | closeConnection => inferInstanceAs (Decidable False)

/-- The status of the response. -/
def status : HttpCode → Int
  | noRequest => 0
  | getRequest => 0
  | badRequest => 400
  | noResource => 404
  | forbiddenRequest => 403
  | fileRequest => 200
  | internalError => 500
  | closeConnection => 0

def title : HttpCode → Text
  | noRequest => []
  | getRequest => []
  | badRequest => error400Title
  | noResource => error404Title
  | forbiddenRequest => error403Title
  | fileRequest => ok200Title
  | internalError => error500Title
  | closeConnection => []

/-- The body: an error's text, the file, or the page for an empty one. -/
def body (file : List UInt8) : HttpCode → Text
  | noRequest => []
  | getRequest => []
  | badRequest => error400Form
  | noResource => error404Form
  | forbiddenRequest => error403Form
  | fileRequest => if file = [] then ascii "<html><body></body></html>" else file
  | internalError => error500Form
  | closeConnection => []

end HttpCode

namespace HttpConn

variable {conn : HttpConn} {ret : HttpCode}

/-- `process_write` succeeds, and what `m_iv` describes is a response with the length of its
body. -/
def FramesResponse (conn : HttpConn) (file : List UInt8) (ret : HttpCode) : Prop :=
  ∃ conn', conn.processWrite ret = (conn', true) ∧
    conn'.gather file conn'.iv =
      responseHead ret.status ret.title (ret.body file).length conn.linger ++ ret.body file

variable (conn) in
theorem addHeaders_appends {contentLen : Int} (low : -2147483648 ≤ contentLen)
    (high : contentLen ≤ 2147483647) (room : conn.writeIdx ≤ 900) :
    ∃ conn', conn.addHeaders contentLen = (conn', true) ∧
      conn.Appended conn' (contentLengthLine contentLen ++ (connectionLine conn.linger ++ crlf)) := by
  have size : writeBufferSize = 1024 := rfl
  have first := length_contentLengthLine low high
  have second := length_connectionLine conn.linger
  have third : crlf.length = 2 := rfl
  obtain ⟨lengthy, addedLength, appendedLength⟩ :=
    conn.addResponse_appends (contentLengthLine contentLen) (by omega)
  have lengthyIdx := appendedLength.writeIdx
  have linger : lengthy.linger = conn.linger := by rw [appendedLength.others]
  obtain ⟨lingering, addedLinger, appendedLinger⟩ :=
    lengthy.addResponse_appends (connectionLine conn.linger) (by omega)
  have lingeringIdx := appendedLinger.writeIdx
  obtain ⟨blank, addedBlank, appendedBlank⟩ := lingering.addResponse_appends crlf (by omega)
  refine ⟨blank, ?_, appendedLength.trans (appendedLinger.trans appendedBlank)⟩
  have length : conn.addContentLength contentLen = (lengthy, true) := addedLength
  have connection : lengthy.addLinger = (lingering, true) := by
    unfold addLinger
    rw [linger]
    exact addedLinger
  have blankLine : lingering.addBlankLine = (blank, true) := addedBlank
  unfold addHeaders
  simp only [length, connection, blankLine]

variable (ret) in
theorem short_status (answers : ret.Answers) :
    (decimal ret.status).length + ret.title.length ≤ 800 := by
  cases ret with
  | noRequest => cases answers
  | getRequest => cases answers
  | closeConnection => cases answers
  | badRequest => decide
  | noResource => decide
  | forbiddenRequest => decide
  | fileRequest => decide
  | internalError => decide

theorem addHead_appends (empty : conn.writeIdx = 0) (answers : ret.Answers) {contentLen : Int}
    (low : -2147483648 ≤ contentLen) (high : contentLen ≤ 2147483647) :
    ∃ started conn', conn.addStatusLine ret.status ret.title = (started, true) ∧
      started.addHeaders contentLen = (conn', true) ∧ conn'.writeIdx ≤ 900 ∧
      conn.Appended conn' (responseHead ret.status ret.title contentLen conn.linger) := by
  have size : writeBufferSize = 1024 := rfl
  have statusLength := length_statusLine (short_status ret answers)
  have first := length_contentLengthLine low high
  have second := length_connectionLine conn.linger
  have third : crlf.length = 2 := rfl
  obtain ⟨started, addedStatus, appendedStatus⟩ :=
    conn.addResponse_appends (statusLine ret.status ret.title) (by omega)
  have startedIdx := appendedStatus.writeIdx
  have linger : started.linger = conn.linger := by rw [appendedStatus.others]
  obtain ⟨headed, added, appended⟩ := started.addHeaders_appends low high (by omega)
  rw [linger] at appended
  have headedIdx := appended.writeIdx
  simp only [List.length_append] at headedIdx
  exact ⟨started, headed, addedStatus, added, by omega, appendedStatus.trans appended⟩

variable (ret) in
theorem form_short (answers : ret.Answers) (error : ret ≠ .fileRequest) (file : List UInt8) :
    (ret.body file).length ≤ 100 := by
  have forms : error400Form.length ≤ 100 ∧ error404Form.length ≤ 100 ∧
      error403Form.length ≤ 100 ∧ error500Form.length ≤ 100 := by decide
  cases ret with
  | noRequest => cases answers
  | getRequest => cases answers
  | closeConnection => cases answers
  | fileRequest => exact absurd rfl error
  | badRequest => exact forms.1
  | noResource => exact forms.2.1
  | forbiddenRequest => exact forms.2.2.1
  | internalError => exact forms.2.2.2

/-- A case of `process_write` that has a text of its own. -/
theorem processWrite_form (conn : HttpConn) (answers : ret.Answers) (file : List UInt8)
    (error : ret ≠ .fileRequest) :
    conn.processWrite ret = ivHeader (conn.addForm ret.status ret.title (ret.body file)) := by
  cases ret with
  | noRequest => cases answers
  | getRequest => cases answers
  | closeConnection => cases answers
  | fileRequest => exact absurd rfl error
  | badRequest => rfl
  | noResource => rfl
  | forbiddenRequest => rfl
  | internalError => rfl

theorem processWrite_framesForm (empty : conn.writeIdx = 0) (answers : ret.Answers)
    (file : List UInt8) (error : ret ≠ .fileRequest) : conn.FramesResponse file ret := by
  have size : writeBufferSize = 1024 := rfl
  have short := form_short ret answers error file
  have low : -2147483648 ≤ ((ret.body file).length : Int) := by omega
  have high : ((ret.body file).length : Int) ≤ 2147483647 := by omega
  obtain ⟨started, headed, addedStatus, addedHeaders, index, head⟩ :=
    addHead_appends empty answers low high
  obtain ⟨formed, addedForm, form⟩ := headed.addResponse_appends (ret.body file) (by omega)
  have whole := head.trans form
  have added : conn.addForm ret.status ret.title (ret.body file) = (formed, true) := by
    unfold addForm addContent
    simp only [addedStatus, addedHeaders, addedForm]
  refine ⟨{ formed with iv := [.writeBuf formed.writeIdx] }, ?_, ?_⟩
  · rw [processWrite_form conn answers file error, added]
    rfl
  · have bytes := whole.bytes
    rw [empty, List.take_zero, List.nil_append] at bytes
    simp only [gather, List.flatMap_cons, List.flatMap_nil, List.append_nil]
    exact bytes

variable (conn) in
theorem fileState_addStatusLine (status : Int) (title : Text) :
    (conn.addStatusLine status title).1.fileState = conn.fileState :=
  congrArg (fun held => held.1.2.2) (lasting_addResponse conn _)

theorem processWrite_emptyFile (size : conn.fileState.size = 0) :
    (conn.processWrite .fileRequest).2 = false := by
  have kept := conn.fileState_addStatusLine 200 ok200Title
  unfold processWrite
  simp only [kept, size, ne_eq, not_true_eq_false, if_false]

/-- A file that is not empty follows a header with its size, as an `int`. -/
theorem processWrite_file (empty : conn.writeIdx = 0) {file : List UInt8}
    (mapped : file.length = conn.fileState.size) (nonempty : conn.fileState.size ≠ 0) :
    ∃ conn', conn.processWrite .fileRequest = (conn', true) ∧
      conn'.gather file conn'.iv =
        responseHead 200 ok200Title (toInt conn.fileState.size) conn.linger ++ file := by
  obtain ⟨low, high⟩ := toInt_range conn.fileState.size
  have answers : HttpCode.fileRequest.Answers := trivial
  obtain ⟨started, headed, addedStatus, addedHeaders, index, head⟩ :=
    addHead_appends empty answers low high
  have status : conn.addStatusLine 200 ok200Title = (started, true) := addedStatus
  have kept : started.fileState = conn.fileState := by
    have kept := conn.fileState_addStatusLine 200 ok200Title
    rwa [status] at kept
  have fileState : headed.fileState = conn.fileState := by rw [head.others]
  refine ⟨{ headed with iv := [.writeBuf headed.writeIdx, .file headed.fileAddress
    headed.fileState.size] }, ?_, ?_⟩
  · unfold processWrite
    simp only [status, kept, nonempty, ne_eq, not_false_eq_true, if_true, addedHeaders]
  · have bytes := head.bytes
    rw [empty, List.take_zero, List.nil_append] at bytes
    simp only [gather, List.flatMap_cons, List.flatMap_nil, List.append_nil]
    rw [bytes, fileState, ← mapped, List.take_length]
    rfl

/-- A response is framed properly, but for files without a byte and files whose size is
not an `int`. -/
theorem framesResponse_iff (conn : HttpConn) (empty : conn.writeIdx = 0) (ret : HttpCode)
    (answers : ret.Answers) (file : List UInt8) (mapped : file.length = conn.fileState.size) :
    conn.FramesResponse file ret ↔
      (ret = .fileRequest → 0 < conn.fileState.size ∧ conn.fileState.size ≤ 2147483647) := by
  by_cases isFile : ret = .fileRequest
  · subst isFile
    constructor
    · rintro ⟨framed, written, bytes⟩ -
      have nonempty : conn.fileState.size ≠ 0 := by
        intro emptyFile
        have failed := processWrite_emptyFile emptyFile
        rw [written] at failed
        exact Bool.false_ne_true failed.symm
      obtain ⟨conn', written', bytes'⟩ := processWrite_file empty mapped nonempty
      obtain rfl : framed = conn' := congrArg Prod.fst (written.symm.trans written')
      have full : file ≠ [] := by
        intro emptyFile
        rw [emptyFile] at mapped
        exact nonempty mapped.symm
      have body : HttpCode.body file .fileRequest = file := if_neg full
      rw [body] at bytes
      have heads := List.append_cancel_right (bytes.symm.trans bytes')
      have exact_size : toInt conn.fileState.size = conn.fileState.size := by
        rw [← mapped]
        rw [← mapped] at heads
        exact (responseHead_contentLen heads).symm
      have range := toInt_eq_iff.mp exact_size
      omega
    · intro condition
      obtain ⟨positive, fits⟩ := condition rfl
      obtain ⟨conn', written, bytes⟩ := processWrite_file empty mapped (by omega)
      refine ⟨conn', written, ?_⟩
      have full : file ≠ [] := by
        intro emptyFile
        rw [emptyFile] at mapped
        exact absurd mapped.symm (by simp; omega)
      have body : HttpCode.body file .fileRequest = file := if_neg full
      rw [bytes, body, toInt_eq_iff.mpr (by omega), mapped]
      rfl
  · exact iff_of_true (processWrite_framesForm empty answers file isFile) fun file =>
      absurd file isFile

/-- A connection whose file has this size. -/
def fileConn (size : Nat) : HttpConn :=
  { idleConn with fileState := { mode := 0o100644, size } }

theorem framesResponse_iff_fileConn :
    (fileConn 3).FramesResponse (ascii "hi\n") .fileRequest ↔
      (HttpCode.fileRequest = .fileRequest → 0 < 3 ∧ 3 ≤ 2147483647) :=
  framesResponse_iff (fileConn 3) rfl .fileRequest trivial (ascii "hi\n") (by decide +kernel)

/-- An empty file is not answered. -/
theorem framesResponse_emptyFile : ¬ (fileConn 0).FramesResponse [] .fileRequest := by
  rintro ⟨conn', written, -⟩
  have failed : ((fileConn 0).processWrite .fileRequest).2 = false := processWrite_emptyFile rfl
  rw [written] at failed
  exact Bool.false_ne_true failed.symm

end HttpConn

end HPLinuxServer.Http
