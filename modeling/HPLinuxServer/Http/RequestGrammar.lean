import HPLinuxServer.Memory.CString

/-!
# What a request is

The requests that the server is meant to understand: a request line, header lines
that are not empty, an empty line and a body, where every line ends with CRLF.
-/

set_option autoImplicit false

namespace HPLinuxServer.Http

open Memory

def carriageReturn : UInt8 := 13

def lineFeed : UInt8 := 10

def crlf : Text := [carriageReturn, lineFeed]

/-- `" \t"` -/
def blanks : Text := ascii " \t"

/-- No line ends in this text. -/
def OneLine (text : Text) : Prop := ∀ byte ∈ text, byte ≠ carriageReturn ∧ byte ≠ lineFeed

instance (text : Text) : Decidable (OneLine text) :=
  inferInstanceAs (Decidable (∀ byte ∈ text, _))

/-- The words of a request line and what stands between them. -/
structure RequestLine where
  method : Text
  firstGap : Text
  url : Text
  secondGap : Text
  version : Text
  deriving DecidableEq, Repr

namespace RequestLine

def bytes (line : RequestLine) : Text :=
  line.method ++ line.firstGap ++ line.url ++ line.secondGap ++ line.version

/-- The path of a url: the url itself, or what follows the host. -/
def path (url : Text) : Option Text :=
  if strncasecmpEq url (ascii "http://") 7 then
    (strchr (url.drop 7) 47).map fun slash => (url.drop 7).drop slash
  else if url.head? = some 47 then some url
  else none

/-- Where the words begin and end. -/
structure Shaped (line : RequestLine) : Prop where
  method : ∀ byte ∈ line.method, byte ∉ blanks
  firstGap : line.firstGap ≠ [] ∧ ∀ byte ∈ line.firstGap, byte ∈ blanks
  url : line.url ≠ [] ∧ ∀ byte ∈ line.url, byte ∉ blanks
  secondGap : line.secondGap ≠ [] ∧ ∀ byte ∈ line.secondGap, byte ∈ blanks
  version : ∀ byte ∈ line.version.head?, byte ∉ blanks

/-- The words are the ones that are served. -/
structure Served (line : RequestLine) : Prop where
  method : strcasecmpEq line.method (ascii "GET") = true
  url : (path line.url).isSome
  version : strcasecmpEq line.version (ascii "HTTP/1.1") = true

structure WellFormed (line : RequestLine) : Prop where
  shaped : line.Shaped
  served : line.Served
  oneLine : OneLine line.bytes

end RequestLine

/-- The header fields that matter. -/
structure Fields where
  contentLength : Int
  linger : Bool
  host : Option Text
  deriving DecidableEq, Repr

/-- The value of a header line with the given name, behind blanks. -/
def fieldValue (name : String) (header : Text) : Option Text :=
  if strncasecmpEq header (ascii name) name.length then
    some ((header.drop name.length).dropWhile fun byte => byte ∈ blanks)
  else none

/-- What one header line says. -/
def Fields.add (fields : Fields) (header : Text) : Fields :=
  match fieldValue "Connection:" header, fieldValue "Content-Length:" header,
      fieldValue "Host:" header with
  | some value, _, _ =>
      { fields with linger := fields.linger || strcasecmpEq value (ascii "keep-alive") }
  | none, some value, _ => { fields with contentLength := toInt (atol value) }
  | none, none, some value => { fields with host := some value }
  | none, none, none => fields

structure Request where
  line : RequestLine
  headers : List Text
  body : Text
  deriving DecidableEq, Repr

namespace Request

def fields (request : Request) : Fields :=
  request.headers.foldl Fields.add { contentLength := 0, linger := false, host := none }

def bytes (request : Request) : Text :=
  request.line.bytes ++ crlf ++ (request.headers.map (· ++ crlf)).flatten ++ crlf ++ request.body

/-- A request with as much of its body as its header announces. -/
structure WellFormed (request : Request) : Prop where
  line : request.line.WellFormed
  headers : ∀ header ∈ request.headers, header ≠ [] ∧ OneLine header
  body : request.fields.contentLength ≤ request.body.length

end Request

/-- `received` begins with a request. -/
def BeginsWith (received : Text) (request : Request) : Prop :=
  request.WellFormed ∧ request.bytes <+: received

/-- `received` can be extended to bytes that begin with a request. -/
def Extendable (received : Text) : Prop :=
  ∃ more request, BeginsWith (received ++ more) request

end HPLinuxServer.Http
