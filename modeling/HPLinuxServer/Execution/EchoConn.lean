import HPLinuxServer.Memory.FirstLine
import HPLinuxServer.Memory.Int32
import HPLinuxServer.Refinement.Runs

/-!
# Connections of the echo server

`echo_conn` of `echo_processpool_server.cpp`: `init`, and `process` for each report on the
connection. Any access outside of `m_buf` is a fault.
-/

set_option autoImplicit false

namespace HPLinuxServer.Execution

open Memory

def echoBufferSize : Nat := 1024

/-- What `recv` returns; no data is the end of the stream. -/
inductive EchoReceived where
  /-- with EAGAIN -/
  | again
  | failed
  | data (bytes : Text) (fits : bytes.length ≤ echoBufferSize - 1)
  deriving DecidableEq, Repr

structure EchoConn where
  buf : Buffer echoBufferSize
  readIdx : Int
  deriving DecidableEq, Repr

/-- How a call of `process` ends. -/
structure Processed where
  conn : EchoConn
  ret : Int
  /-- `removefd` was called -/
  removed : Bool
  /-- the bytes of `send` -/
  sent : Option (Buffer echoBufferSize)
  deriving DecidableEq, Repr

namespace EchoConn

def init : EchoConn where
  buf := Buffer.zero echoBufferSize
  readIdx := 0

/-- The condition of the scan: `m_buf[idx]` is only read behind a carriage return. -/
def lineEndsAt (buf : Buffer echoBufferSize) (idx : Nat) : Except Fault Bool := do
  if idx < 1 then return false
  if (← buf.load (idx - 1)) ≠ 13 then return false
  return decide ((← buf.load idx) = 10)

/-- The loop from `idx` on, as long as `remaining` more indices are below `m_read_idx`. -/
def scan (buf : Buffer echoBufferSize) : Nat → Nat → Except Fault Nat
  | 0, idx => .ok idx
  | remaining + 1, idx => do
      if ← lineEndsAt buf idx then return idx
      scan buf remaining (idx + 1)

/-- `m_buf[index] = '\0'` -/
def storeNul (buf : Buffer echoBufferSize) (index : Int) : Except Fault (Buffer echoBufferSize) :=
  if 0 ≤ index ∧ index < echoBufferSize then .ok (buf.store index.toNat 0)
  else .error .outOfBounds

/-- The branch of `ret > 0`. It prints the buffer first. -/
def processData (buf : Buffer echoBufferSize) (readIdx ret : Int) : Except Fault Processed := do
  let readIdx ← checkInt (readIdx + ret)
  let _ ← buf.text 0
  let idx ← scan buf readIdx.toNat 0
  let buf ← storeNul buf ((idx : Int) - 1)
  return { conn := { buf, readIdx }, ret := 1, removed := false, sent := some buf }

/-- `process` clears the buffer and receives at its start, whatever was received before. -/
def process (conn : EchoConn) : EchoReceived → Except Fault Processed
  | .again => .ok {
      conn := { conn with buf := Buffer.zero echoBufferSize }
      ret := 1
      removed := false
      sent := none }
  | .failed => .ok {
      conn := { conn with buf := Buffer.zero echoBufferSize }
      ret := 0
      removed := true
      sent := none }
  | .data bytes _ =>
      let buf := (Buffer.zero echoBufferSize).copyIn 0 bytes
      if bytes.length = 0 then .ok {
        conn := { conn with buf }
        ret := 0
        removed := true
        sent := none }
      else processData buf conn.readIdx bytes.length

/-- The calls of `process` one after the other. -/
def exec (conn : EchoConn) (received : EchoReceived) : Except Fault EchoConn :=
  (conn.process received).map Processed.conn

end EchoConn

end HPLinuxServer.Execution
