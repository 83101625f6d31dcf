import HPLinuxServer.Http.HttpConn

/-!
# HTTP connection: responses and the connection's life

The other half of `http_conn`: the response that is put together in
`m_write_buf`, its delivery by `writev`, and the functions that open and close the
connection. What they ask of the kernel, and what they add to the shared
`m_user_count`, is listed as effects in the order of the calls.
-/

set_option autoImplicit false

namespace HPLinuxServer.Http

open Memory

/-- The event that `modfd` waits for. -/
inductive Interest where
  | input
  | output
  deriving DecidableEq, Repr

inductive Effect where
  | epollAdd (fd : Int)
  | epollMod (fd : Int) (interest : Interest)
  | epollDel (fd : Int)
  | close (fd : Int)
  | userCount (change : Int)
  | munmap (address : Addr) (length : Nat)
  /-- `writev` took the first `count` bytes of `iv`. -/
  | sent (iv : List IoVec) (count : Nat)
  deriving DecidableEq, Repr

/-- What one call of `recv` gives; `data` is not empty. -/
inductive RecvResult where
  | data (bytes : List UInt8)
  | again
  | endOfFile
  | error
  deriving DecidableEq, Repr

/-- What one call of `writev` gives. -/
inductive WritevResult where
  | sent (count : Nat)
  | again
  | error
  deriving DecidableEq, Repr

def ok200Title : Text := ascii "OK"
def error400Title : Text := ascii "Bad Request"
def error400Form : Text := ascii "Bad Syntax or inherently impossible to satisfied\n"
def error403Title : Text := ascii "Forbidden"
def error403Form : Text := ascii "Do not have permission\n"
def error404Title : Text := ascii "Not Found"
def error404Form : Text := ascii "The request file was not found on this server\n"
def error500Title : Text := ascii "Internal Error"
def error500Form : Text := ascii "Internal Error"

namespace HttpConn

/-- `close_conn`, with `real_close` set as in every call. -/
def closeConn (conn : HttpConn) : HttpConn × List Effect :=
  if conn.sockfd ≠ -1 then
    ({ conn with sockfd := -1 },
      [.epollDel conn.sockfd, .close conn.sockfd, .userCount (-1)])
  else (conn, [])

/-- `init(sockfd, addr)` -/
def init (conn : HttpConn) (sockfd : Int) : HttpConn × List Effect :=
  ({ conn with sockfd }.reset, [.epollAdd sockfd, .userCount 1])

/-- `recv` with space for `room` bytes; it returns 0 if there is none. -/
def recv (room : Nat) : RecvResult → RecvResult
  | .data bytes => if room = 0 then .endOfFile else .data (bytes.take room)
  | .again => if room = 0 then .endOfFile else .again
  | .endOfFile => .endOfFile
  | .error => if room = 0 then .endOfFile else .error

/-- The loop of `read` on the results of `recv`. Behind the last one there is
nothing more to receive for now. -/
def readLoop (conn : HttpConn) : List RecvResult → HttpConn × Bool
  | [] => (conn, recv (readBufferSize - conn.readIdx) .again = .again)
  | result :: results =>
      match recv (readBufferSize - conn.readIdx) result with
      | .again => (conn, true)
      | .error => (conn, false)
      | .endOfFile => (conn, false)
      | .data bytes =>
          let conn := { conn with
            readBuf := conn.readBuf.copyIn conn.readIdx bytes
            readIdx := conn.readIdx + bytes.length }
          conn.readLoop results

def read (conn : HttpConn) (results : List RecvResult) : HttpConn × Bool :=
  if conn.readIdx ≥ readBufferSize then (conn, false) else conn.readLoop results

/-- `add_response` of a text that `vsnprintf` has formatted. -/
def addResponse (conn : HttpConn) (formatted : Text) : HttpConn × Bool :=
  if conn.writeIdx ≥ writeBufferSize then (conn, false)
  else
    let room := writeBufferSize - 1 - conn.writeIdx
    let conn := { conn with
      writeBuf :=
        if room = 0 then conn.writeBuf
        else conn.writeBuf.copyIn conn.writeIdx (formatted.take (room - 1) ++ [0]) }
    if formatted.length ≥ room then (conn, false)
    else ({ conn with writeIdx := conn.writeIdx + formatted.length }, true)

def addStatusLine (conn : HttpConn) (status : Int) (title : Text) : HttpConn × Bool :=
  conn.addResponse (ascii "HTTP/1.1 " ++ decimal status ++ ascii " " ++ title ++ ascii "\r\n")

def addContentLength (conn : HttpConn) (contentLen : Int) : HttpConn × Bool :=
  conn.addResponse (ascii "Content-Length: " ++ decimal contentLen ++ ascii "\r\n")

def addLinger (conn : HttpConn) : HttpConn × Bool :=
  conn.addResponse
    (ascii "Connection: " ++ ascii (if conn.linger then "keep-alive" else "close") ++ ascii "\r\n")

def addBlankLine (conn : HttpConn) : HttpConn × Bool :=
  conn.addResponse (ascii "\r\n")

def addContent (conn : HttpConn) (content : Text) : HttpConn × Bool :=
  conn.addResponse content

def addHeaders (conn : HttpConn) (contentLen : Int) : HttpConn × Bool :=
  match conn.addContentLength contentLen with
  | (conn, false) => (conn, false)
  | (conn, true) =>
      match conn.addLinger with
      | (conn, false) => (conn, false)
      | (conn, true) => conn.addBlankLine

/-- A case of `process_write` that answers with a text of its own. -/
def addForm (conn : HttpConn) (status : Int) (title form : Text) : HttpConn × Bool :=
  let (conn, _) := conn.addStatusLine status title
  let (conn, _) := conn.addHeaders form.length
  conn.addContent form

/-- `m_iv[0]` alone, at the end of `process_write`. -/
def ivHeader (result : HttpConn × Bool) : HttpConn × Bool :=
  match result with
  | (conn, false) => (conn, false)
  | (conn, true) => ({ conn with iv := [.writeBuf conn.writeIdx] }, true)

/-- `process_write`. The page for an empty file is added, but its case goes on into
the default one. -/
def processWrite (conn : HttpConn) (ret : HttpCode) : HttpConn × Bool :=
  match ret with
  | .internalError => ivHeader (conn.addForm 500 error500Title error500Form)
  | .badRequest => ivHeader (conn.addForm 400 error400Title error400Form)
  | .noResource => ivHeader (conn.addForm 404 error404Title error404Form)
  | .forbiddenRequest => ivHeader (conn.addForm 403 error403Title error403Form)
  | .fileRequest =>
      let (conn, _) := conn.addStatusLine 200 ok200Title
      if conn.fileState.size ≠ 0 then
        let (conn, _) := conn.addHeaders (toInt conn.fileState.size)
        ({ conn with
          iv := [.writeBuf conn.writeIdx, .file conn.fileAddress conn.fileState.size] }, true)
      else
        let okString := ascii "<html><body></body></html>"
        let (conn, _) := conn.addHeaders okString.length
        let (conn, _) := conn.addContent okString
        (conn, false)
  | .noRequest => (conn, false)
  | .getRequest => (conn, false)
  | .closeConnection => (conn, false)

/-- `unmap` -/
def unmap (conn : HttpConn) : HttpConn × List Effect :=
  match conn.fileAddress with
  | none => (conn, [])
  | some address =>
      ({ conn with fileAddress := none }, [.munmap address conn.fileState.size])

/-- Where a call of `write` is: in its loop, about to call `writev`, or back. -/
inductive WriteState where
  | looping (bytesToSend bytesHaveSend : Int)
  | returned (result : Bool)
  deriving DecidableEq, Repr

/-- `write` up to the first `writev`. -/
def writeBegin (conn : HttpConn) : HttpConn × List Effect × WriteState :=
  if conn.writeIdx = 0 then (conn.reset, [.epollMod conn.sockfd .input], .returned true)
  else (conn, [], .looping conn.writeIdx 0)

/-- One round of the loop of `write`, from what `writev` gives. The two counts stay
below the header's length until the loop ends. -/
def writeRound (conn : HttpConn) (bytesToSend bytesHaveSend : Int) :
    WritevResult → HttpConn × List Effect × WriteState
  | .again => (conn, [.epollMod conn.sockfd .output], .returned true)
  | .error =>
      let (conn, unmapped) := conn.unmap
      (conn, unmapped, .returned false)
  | .sent count =>
      let bytesToSend := bytesToSend - count
      let bytesHaveSend := bytesHaveSend + count
      if bytesToSend ≤ bytesHaveSend then
        let (unmappedConn, unmapped) := conn.unmap
        if conn.linger then
          (unmappedConn.reset, .sent conn.iv count :: unmapped ++ [.epollMod conn.sockfd .input],
            .returned true)
        else
          (unmappedConn, .sent conn.iv count :: unmapped ++ [.epollMod conn.sockfd .input],
            .returned false)
      else (conn, [.sent conn.iv count], .looping bytesToSend bytesHaveSend)

/-- The loop of `write` on the results of `writev`, which are used up one by one. -/
def writeLoop (conn : HttpConn) (bytesToSend bytesHaveSend : Int) :
    List WritevResult → HttpConn × List Effect × WriteState
  | [] => (conn, [], .looping bytesToSend bytesHaveSend)
  | result :: results =>
      match conn.writeRound bytesToSend bytesHaveSend result with
      | (conn, effects, .returned value) => (conn, effects, .returned value)
      | (conn, effects, .looping bytesToSend bytesHaveSend) =>
          let (conn, later, state) := conn.writeLoop bytesToSend bytesHaveSend results
          (conn, effects ++ later, state)

/-- `write`; it has not returned while its state is `looping`. -/
def write (conn : HttpConn) (results : List WritevResult) : HttpConn × List Effect × WriteState :=
  match conn.writeBegin with
  | (conn, effects, .returned value) => (conn, effects, .returned value)
  | (conn, _, .looping bytesToSend bytesHaveSend) =>
      conn.writeLoop bytesToSend bytesHaveSend results

/-- `process` -/
def process (files : FileSystem) (fuel : Nat) (conn : HttpConn) :
    Except Fault (HttpConn × List Effect) := do
  let (conn, readRet) ← conn.processRead files fuel
  if readRet = .noRequest then return (conn, [.epollMod conn.sockfd .input])
  else
    let (conn, writeRet) := conn.processWrite readRet
    let (conn, closing) := if writeRet then (conn, []) else conn.closeConn
    return (conn, closing ++ [.epollMod conn.sockfd .output])

end HttpConn

end HPLinuxServer.Http
