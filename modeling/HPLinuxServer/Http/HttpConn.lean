import HPLinuxServer.Memory.Int32
import HPLinuxServer.Http.RequestGrammar

/-!
# HTTP connection

The parser of `http_conn`: from the bytes in `m_read_buf` to a call of
`do_request`. Pointers into the buffer are offsets. A store outside of the buffer
is recorded in `stray` and changes nothing else; a read outside is a fault. The
peer's address and what is printed are left out.
-/

set_option autoImplicit false

namespace HPLinuxServer.Http

open Memory

/-- `READ_BUFFER_SIZE` -/
def readBufferSize : Nat := 2048

/-- `WRITE_BUFFER_SIZE` -/
def writeBufferSize : Nat := 1024

/-- `FILENAME_LEN` -/
def filenameLen : Nat := 200

/-- `METHOD` -/
inductive Method where
  | get
  | post
  | head
  | put
  | delete
  | trace
  | options
  | connect
  | patch
  deriving DecidableEq, Repr

/-- `CHECK_STATE` -/
inductive CheckState where
  | requestLine
  | header
  | content
  deriving DecidableEq, Repr

/-- `HTTP_CODE` -/
inductive HttpCode where
  | noRequest
  | getRequest
  | badRequest
  | noResource
  | forbiddenRequest
  | fileRequest
  | internalError
  | closeConnection
  deriving DecidableEq, Repr

/-- `LINE_STATUS` -/
inductive LineStatus where
  | lineOk
  | lineBad
  | lineOpen
  deriving DecidableEq, Repr

/-- The number of an enumerator. -/
def LineStatus.value : LineStatus → Nat
  | .lineOk => 0
  | .lineBad => 1
  | .lineOpen => 2

/-- The fields of `struct stat` that are read. -/
structure FileStat where
  mode : Nat
  size : Nat
  deriving DecidableEq, Repr

/-- `st_mode & S_IROTH` -/
def FileStat.readableByOthers (file : FileStat) : Bool := file.mode &&& 0o4 ≠ 0

/-- `S_ISDIR(st_mode)` -/
def FileStat.isDirectory (file : FileStat) : Bool := file.mode &&& 0o170000 = 0o040000

/-- The file system: `stat` on a path, and what `open` of the path for reading
followed by `mmap` of that many bytes returns (a failure is an address too). -/
structure FileSystem where
  stat : Text → Option FileStat
  map : Text → Nat → Addr

/-- An entry of `m_iv`. -/
inductive IoVec where
  | writeBuf (length : Nat)
  | file (address : Ptr) (length : Nat)
  deriving DecidableEq, Repr

structure HttpConn where
  sockfd : Int
  readBuf : Buffer readBufferSize
  readIdx : Nat
  checkedIdx : Nat
  startLine : Nat
  writeBuf : Buffer writeBufferSize
  writeIdx : Nat
  checkState : CheckState
  method : Method
  realFile : Buffer filenameLen
  url : Option Nat
  version : Option Nat
  host : Option Nat
  contentLength : Int
  linger : Bool
  fileAddress : Ptr
  fileState : FileStat
  /-- `m_iv`, up to `m_iv_count` -/
  iv : List IoVec
  /-- stores outside of `m_read_buf`, by their distance from its start -/
  stray : List Int
  deriving DecidableEq, Repr

def docRoot : Text := ascii "/var/www/html"

namespace HttpConn

/-- The private `init()`. -/
def reset (conn : HttpConn) : HttpConn :=
  { conn with
    checkState := .requestLine
    linger := false
    method := .get
    url := none
    version := none
    contentLength := 0
    host := none
    startLine := 0
    checkedIdx := 0
    readIdx := 0
    writeIdx := 0
    readBuf := Buffer.zero readBufferSize
    writeBuf := Buffer.zero writeBufferSize
    realFile := Buffer.zero filenameLen }

/-- `m_read_buf[index] = byte` -/
def storeRead (conn : HttpConn) (index : Int) (byte : UInt8) : HttpConn :=
  if 0 ≤ index ∧ index < readBufferSize then
    { conn with readBuf := conn.readBuf.store index.toNat byte }
  else { conn with stray := conn.stray ++ [index] }

/-- What `parse_line` does at the end of a line: the byte before `m_checked_idx` and
the one at it become NUL, and it is passed. -/
def endLine (conn : HttpConn) : HttpConn :=
  let conn := conn.storeRead (conn.checkedIdx - 1) 0
  let conn := conn.storeRead conn.checkedIdx 0
  { conn with checkedIdx := conn.checkedIdx + 1 }

/-- The loop of `parse_line`, with `rounds` bytes left. -/
def parseLineLoop (conn : HttpConn) : Nat → Except Fault (HttpConn × LineStatus)
  | 0 => .ok (conn, .lineOpen)
  | rounds + 1 => do
      let temp ← conn.readBuf.load conn.checkedIdx
      if temp = carriageReturn then
        if conn.checkedIdx + 1 = conn.readIdx then return (conn, .lineOpen)
        else if (← conn.readBuf.load (conn.checkedIdx + 1)) = lineFeed then
          return (conn.endLine, .lineOk)
        else return (conn, .lineBad)
      else if temp = lineFeed then
        if conn.checkedIdx > 1 ∧
            (← conn.readBuf.load (conn.checkedIdx - 1)) = carriageReturn then
          return (conn.endLine, .lineOk)
        else return (conn, .lineBad)
      else
        parseLineLoop { conn with checkedIdx := conn.checkedIdx + 1 } rounds

def parseLine (conn : HttpConn) : Except Fault (HttpConn × LineStatus) :=
  conn.parseLineLoop (conn.readIdx - conn.checkedIdx)

/-- The end of `parse_request_line`: the check of the url at `url`. -/
def checkUrl (conn : HttpConn) (url : Nat) : Except Fault (HttpConn × HttpCode) := do
  let conn ←
    if strncasecmpEq (← conn.readBuf.text url) (ascii "http://") 7 then
      let slash := strchr (← conn.readBuf.text (url + 7)) 47
      pure { conn with url := slash.map fun slash => url + 7 + slash }
    else pure conn
  match conn.url with
  | none => return (conn, .badRequest)
  | some url =>
      if (← conn.readBuf.load url) ≠ 47 then return (conn, .badRequest)
      else return ({ conn with checkState := .header }, .noRequest)

/-- The middle of `parse_request_line`: what follows the method, from `url` on. -/
def parseUrl (conn : HttpConn) (url : Nat) : Except Fault (HttpConn × HttpCode) := do
  let url := url + strspn (← conn.readBuf.text url) blanks
  let conn := { conn with url := some url }
  match strpbrk (← conn.readBuf.text url) blanks with
  | none => return ({ conn with version := none }, .badRequest)
  | some gap => do
      let conn := conn.storeRead (url + gap : Nat) 0
      let version := url + gap + 1
      let version := version + strspn (← conn.readBuf.text version) blanks
      let conn := { conn with version := some version }
      if ¬ strcasecmpEq (← conn.readBuf.text version) (ascii "HTTP/1.1") then
        return (conn, .badRequest)
      else conn.checkUrl url

/-- `parse_request_line`; `text` is the offset of the line. -/
def parseRequestLine (conn : HttpConn) (text : Nat) : Except Fault (HttpConn × HttpCode) := do
  match strpbrk (← conn.readBuf.text text) blanks with
  | none => return ({ conn with url := none }, .badRequest)
  | some gap => do
      let conn := conn.storeRead (text + gap : Nat) 0
      let url := text + gap + 1
      let conn := { conn with url := some url }
      if ¬ strcasecmpEq (← conn.readBuf.text text) (ascii "GET") then
        return (conn, .badRequest)
      else
        let conn := { conn with method := .get }
        conn.parseUrl url

def parseHeaders (conn : HttpConn) (text : Nat) : Except Fault (HttpConn × HttpCode) := do
  let line ← conn.readBuf.text text
  if line = [] then
    if conn.contentLength ≠ 0 then
      return ({ conn with checkState := .content }, .noRequest)
    else return (conn, .getRequest)
  else if strncasecmpEq line (ascii "Connection:") 11 then
    let value := line.drop 11
    let value := value.drop (strspn value (ascii "\t"))
    if strcasecmpEq value (ascii "keep-alive") then
      return ({ conn with linger := true }, .noRequest)
    else return (conn, .noRequest)
  else if strncasecmpEq line (ascii "Content-Length:") 15 then
    let value := line.drop 15
    let value := value.drop (strspn value blanks)
    return ({ conn with contentLength := toInt (atol value) }, .noRequest)
  else if strncasecmpEq line (ascii "Host:") 5 then
    let value := line.drop 5
    return ({ conn with host := some (text + 5 + strspn value blanks) }, .noRequest)
  else return (conn, .noRequest)

def parseContent (conn : HttpConn) (text : Nat) : Except Fault (HttpConn × HttpCode) := do
  if conn.readIdx ≥ (← checkInt (conn.contentLength + conn.checkedIdx)) then
    return (conn.storeRead (text + conn.contentLength) 0, .getRequest)
  else return (conn, .noRequest)

/-- How the loop of `process_read` ends: with a code, or in `do_request`. -/
inductive ReadExit where
  | code (code : HttpCode)
  | doRequest
  deriving DecidableEq, Repr

/-- The guard of the loop. It compares `line_status` with what `parse_line` returns,
and the outcome of the comparison with `LINE_OK`. -/
def goesOn (conn : HttpConn) (lineStatus : LineStatus) : Except Fault (HttpConn × Bool) :=
  if conn.checkState = .content ∧ lineStatus = .lineOk then .ok (conn, true)
  else do
    let (conn, status) ← conn.parseLine
    return (conn, decide ((decide (lineStatus = status)).toNat = LineStatus.lineOk.value))

/-- How the body of the loop ends. -/
inductive RoundEnd where
  | leave (exit : ReadExit)
  | next (lineStatus : LineStatus)
  deriving DecidableEq, Repr

/-- `m_start_line = m_checked_idx` -/
def nextLine (conn : HttpConn) : HttpConn :=
  { conn with startLine := conn.checkedIdx }

/-- The body of the loop. -/
def handleLine (conn : HttpConn) (lineStatus : LineStatus) :
    Except Fault (HttpConn × RoundEnd) := do
  let text := conn.startLine
  let conn := conn.nextLine
  match conn.checkState with
  | .requestLine => do
      let (conn, ret) ← conn.parseRequestLine text
      if ret = .badRequest then return (conn, .leave (.code .badRequest))
      else return (conn, .next lineStatus)
  | .header => do
      let (conn, ret) ← conn.parseHeaders text
      if ret = .badRequest then return (conn, .leave (.code .badRequest))
      else if ret = .getRequest then return (conn, .leave .doRequest)
      else return (conn, .next lineStatus)
  | .content => do
      let (conn, ret) ← conn.parseContent text
      if ret = .getRequest then return (conn, .leave .doRequest)
      else return (conn, .next .lineOpen)

/-- The loop of `process_read`. -/
def processReadLoop (conn : HttpConn) (lineStatus : LineStatus) :
    Nat → Except Fault (HttpConn × ReadExit)
  | 0 => .error .outOfFuel
  | fuel + 1 => do
      let (conn, goesOn) ← conn.goesOn lineStatus
      if goesOn then
        match ← conn.handleLine lineStatus with
        | (conn, .leave exit) => return (conn, exit)
        | (conn, .next lineStatus) => conn.processReadLoop lineStatus fuel
      else return (conn, .code .noRequest)

/-- The string at `m_url`. -/
def urlText (conn : HttpConn) : Except Fault Text :=
  match conn.url with
  | none => .error .nullDereference
  | some url => conn.readBuf.text url

/-- `m_real_file`, put together from `doc_root` and the url. -/
def joinPath (conn : HttpConn) (url : Text) : Buffer filenameLen :=
  let room := filenameLen - docRoot.length - 1
  (conn.realFile.copyIn 0 (docRoot ++ [0])).copyIn docRoot.length
    (url.take room ++ List.replicate (room - url.length) 0)

/-- What `do_request` does with the path: the checks, and the mapping of the file. -/
def openFile (files : FileSystem) (conn : HttpConn) (path : Text) : HttpConn × HttpCode :=
  match files.stat path with
  | none => (conn, .noResource)
  | some fileState =>
      let conn := { conn with fileState }
      if ¬ fileState.readableByOthers then (conn, .forbiddenRequest)
      else if fileState.isDirectory then (conn, .badRequest)
      else ({ conn with fileAddress := some (files.map path fileState.size) }, .fileRequest)

def doRequest (files : FileSystem) (conn : HttpConn) : Except Fault (HttpConn × HttpCode) := do
  let url ← conn.urlText
  let conn := { conn with realFile := conn.joinPath url }
  let path ← conn.realFile.text 0
  return conn.openFile files path

def processRead (files : FileSystem) (fuel : Nat) (conn : HttpConn) :
    Except Fault (HttpConn × HttpCode) := do
  let (conn, exit) ← conn.processReadLoop .lineOk fuel
  match exit with
  | .code code => return (conn, code)
  | .doRequest => conn.doRequest files

end HttpConn

/-- An object before `init`, whose members hold nothing. -/
def idleConn : HttpConn where
  sockfd := -1
  readBuf := Buffer.zero _
  readIdx := 0
  checkedIdx := 0
  startLine := 0
  writeBuf := Buffer.zero _
  writeIdx := 0
  checkState := .requestLine
  method := .get
  realFile := Buffer.zero _
  url := none
  version := none
  host := none
  contentLength := 0
  linger := false
  fileAddress := none
  fileState := ⟨0, 0⟩
  iv := []
  stray := []

def noFiles : FileSystem where
  stat := fun _ => none
  map := fun _ _ => 0

end HPLinuxServer.Http
