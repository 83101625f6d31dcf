import HPLinuxServer.Http.ProcessReadTermination
import HPLinuxServer.Http.RequestedFile
import HPLinuxServer.Http.ResponseFraming
import HPLinuxServer.Http.Segmentation

/-!
# What a client gets

An `http_conn` that holds its client's own descriptor, as the client sees it: the deliveries
go through `read`, `process` and `write`, and something comes back. Next to it stands what
comes back in terms of the texts and of the files below the document root.
-/

set_option autoImplicit false

namespace HPLinuxServer.Http

open Memory

/-- A file system with the bytes of its files, and the memory that they are mapped to. -/
structure Site where
  files : FileSystem
  content : Text → List UInt8
  memory : Addr → List UInt8
  stat_size : ∀ path file, files.stat path = some file → (content path).length = file.size
  map_content : ∀ path file, files.stat path = some file →
    memory (files.map path file.size) = content path

/-- What comes back, and whether the connection stays open. -/
structure Reply where
  bytes : Text
  isOpen : Bool
  deriving DecidableEq, Repr

namespace HttpConn

/-- The bytes at `m_file_address`. -/
def mapped (site : Site) (conn : HttpConn) : List UInt8 :=
  match conn.fileAddress with
  | none => []
  | some address => site.memory address

/-- What follows `process`: a close, more input, or a `write` to a socket that takes the
whole response. -/
def respond (site : Site) (sockfd : Int) (conn : HttpConn) (effects : List Effect) :
    HttpConn × Reply :=
  if .close sockfd ∈ effects then (conn, ⟨[], false⟩)
  else if .epollMod sockfd .input ∈ effects then (conn, ⟨[], true⟩)
  else
    let (written, sent, state) := conn.write [.sent conn.ivLength]
    (written, ⟨Delivery.taken conn (conn.mapped site) sent, state = .returned true⟩)

/-- One delivery to an open connection. -/
def deliver (site : Site) (fuel : Nat) (conn : HttpConn) (piece : Text) :
    Except Fault (HttpConn × Reply) :=
  match conn.read [.data piece] with
  | (conn, false) => .ok (conn, ⟨[], false⟩)
  | (conn, true) => do
      let (processed, effects) ← conn.process site.files fuel
      return processed.respond site conn.sockfd effects

/-- The deliveries one after the other. None reaches a closed connection. -/
def session (site : Site) (fuel : Nat) (conn : HttpConn) : List Text → Except Fault Reply
  | [] => .ok ⟨[], true⟩
  | piece :: later => do
      let (next, reply) ← conn.deliver site fuel piece
      if reply.isOpen then
        let rest ← next.session site fuel later
        return ⟨reply.bytes ++ rest.bytes, rest.isOpen⟩
      else return reply

/-- The session has this outcome, given enough fuel; it has none if `process_read` spins. -/
def Comes (site : Site) (conn : HttpConn) (pieces : List Text) : Option Reply → Prop
  | none => ∀ fuel, conn.session site fuel pieces = .error .outOfFuel
  | some reply => ∃ enough, ∀ fuel, enough ≤ fuel → conn.session site fuel pieces = .ok reply

end HttpConn

/-- An error page. The connection is not kept. -/
def page (ret : HttpCode) : Text :=
  responseHead ret.status ret.title (ret.body []).length false ++ ret.body []

/-- The response for a line that asks for this path, or is no request line. -/
def Site.response (site : Site) : Option Text → Text
  | none => page .badRequest
  | some path =>
      match site.files.stat (pathOf path) with
      | none => page .noResource
      | some file =>
          if ¬ file.readableByOthers then page .forbiddenRequest
          else if file.isDirectory then page .badRequest
          else if file.size = 0 then []
          else
            responseHead 200 ok200Title (toInt file.size) false ++ site.content (pathOf path)

/-- The path that a line asks for, if it is a request line. -/
def Asks (line : Text) : Option Text → Prop
  | none => ¬ ∃ path, RequestLineOf line path
  | some path => RequestLineOf line path

/-- What a new connection makes of the deliveries. A text without a line end is answered. A
first line that has its CRLF is kept for the next delivery, less its last byte. Any line end
that `parse_line` does not accept is fatal: to the connection, or to the thread. -/
inductive Site.Serves (site : Site) : List Text → Option Reply → Prop where
  | silent : site.Serves [] (some ⟨[], true⟩)
  | answered {first : Text} {asked : Option Text} (later : List Text) :
      OneLine first → Asks first asked →
      site.Serves (first :: later) (some ⟨site.response asked, false⟩)
  | waiting {front : Text} (rest : Text) :
      OneLine front → site.Serves [front ++ carriageReturn :: lineFeed :: rest] (some ⟨[], true⟩)
  | refusedLater {front : Text} (rest second : Text) (later : List Text) :
      OneLine front → Asks front.dropLast none →
      site.Serves ((front ++ carriageReturn :: lineFeed :: rest) :: second :: later)
        (some ⟨page .badRequest, false⟩)
  | spinsLater {front path : Text} (rest second : Text) (later : List Text) :
      OneLine front → Asks front.dropLast (some path) →
      site.Serves ((front ++ carriageReturn :: lineFeed :: rest) :: second :: later) none
  | refused {front rest : Text} {byte : UInt8} (later : List Text) :
      OneLine front → EndsLine byte → ¬ crlf <+: byte :: rest →
      Asks (front ++ byte :: rest) none →
      site.Serves ((front ++ byte :: rest) :: later) (some ⟨page .badRequest, false⟩)
  | spins {front rest path : Text} {byte : UInt8} (later : List Text) :
      OneLine front → EndsLine byte → ¬ crlf <+: byte :: rest →
      Asks (front ++ byte :: rest) (some path) →
      site.Serves ((front ++ byte :: rest) :: later) none

end HPLinuxServer.Http
