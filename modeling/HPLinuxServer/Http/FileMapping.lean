import HPLinuxServer.Http.HttpConnResources
import HPLinuxServer.Refinement.Runs

/-!
# The file mapped for a response

One object of `users`, used for one connection after another, next to the mappings
that `do_request` makes and `unmap` takes back. The constructor and `init` leave
`m_file_address` as it is.
-/

set_option autoImplicit false

namespace HPLinuxServer.Http

open Memory Refinement

/-- `MAP_FAILED`, which `mmap` returns for an empty file or one that `open` refuses. -/
def mapFailed : Addr := 0xffffffffffffffff

structure Mapping where
  address : Addr
  length : Nat
  deriving DecidableEq, Repr

/-- The object with the mappings made for it. -/
structure MappedConn where
  conn : HttpConn
  /-- every mapping so far -/
  made : List Mapping
  /-- the ones that are still there -/
  live : List Mapping
  /-- the ones that `munmap` has removed -/
  unmapped : List Mapping
  /-- mappings that were there when their address or length was overwritten -/
  overwritten : List Mapping
  /-- calls of `munmap` for anything else than a mapping that is there -/
  strayUnmaps : List Mapping
  deriving DecidableEq

namespace MappedConn

def start (conn : HttpConn) : MappedConn where
  conn := conn
  made := []
  live := []
  unmapped := []
  overwritten := []
  strayUnmaps := []

/-- `mmap` returns the address. -/
def mmap (state : MappedConn) (mapping : Mapping) : MappedConn :=
  { state with made := state.made ++ [mapping], live := state.live ++ [mapping] }

/-- `munmap` of an address and a length. -/
def munmap (state : MappedConn) (mapping : Mapping) : MappedConn :=
  if mapping ∈ state.live then
    { state with
      live := state.live.erase mapping
      unmapped := state.unmapped ++ [mapping] }
  else { state with strayUnmaps := state.strayUnmaps ++ [mapping] }

/-- `m_file_state` or `m_file_address` gets a new value. -/
def overwrite (state : MappedConn) : MappedConn :=
  { state with overwritten := state.overwritten ++ state.live }

/-- The calls of `munmap` among the effects of a function. -/
def munmaps (effects : List Effect) : List Mapping :=
  effects.filterMap fun
    | .munmap address length => some { address, length }
    | _ => none

/-- A function has left the object as `conn`. -/
def after (state : MappedConn) (conn : HttpConn) (effects : List Effect) : MappedConn :=
  (munmaps effects).foldl munmap { state with conn }

/-- What `do_request` does to the mappings, if `process_read` gets there: `stat` writes
`m_file_state` where it succeeds, and the result of `mmap` goes to `m_file_address`. -/
def doRequest (state : MappedConn) (files : FileSystem) : Option Text → MappedConn
  | none => state
  | some path =>
      match files.stat path with
      | none => state
      | some fileState =>
          let state := state.overwrite
          if fileState.readableByOthers ∧ ¬ fileState.isDirectory then
            let address := files.map path fileState.size
            if address = mapFailed then state
            else state.mmap { address, length := fileState.size }
          else state

/-- What the server does with the object. A call of `write` whose results are used up
before it returns has not changed anything yet. -/
inductive Op where
  | init (sockfd : Int)
  | read (results : List RecvResult)
  | process (files : FileSystem) (fuel : Nat)
  | write (results : List WritevResult)
  | closeConn

def exec (state : MappedConn) : Op → Except Fault MappedConn
  | .init sockfd =>
      let (conn, effects) := state.conn.init sockfd
      .ok (state.after conn effects)
  | .read results => .ok (state.after (state.conn.read results).1 [])
  | .process files fuel => do
      let path ← state.conn.requestedPath fuel
      let (conn, effects) ← state.conn.process files fuel
      return (state.doRequest files path).after conn effects
  | .write results =>
      let (conn, effects, _) := state.conn.write results
      .ok (state.after conn effects)
  | .closeConn =>
      let (conn, effects) := state.conn.closeConn
      .ok (state.after conn effects)

/-- There is at most one mapping, and it is the one that the object knows; each one made
is there or was removed, once; none was forgotten, and nothing else was unmapped. -/
structure Paired (state : MappedConn) : Prop where
  atMostOne : state.live.length ≤ 1
  known : ∀ mapping ∈ state.live,
    state.conn.fileAddress = some mapping.address ∧
      state.conn.fileState.size = mapping.length
  once : state.made.Perm (state.live ++ state.unmapped)
  kept : state.overwritten = []
  proper : state.strayUnmaps = []

instance (state : MappedConn) : Decidable (Paired state) :=
  decidable_of_iff
    (state.live.length ≤ 1 ∧
      (∀ mapping ∈ state.live,
        state.conn.fileAddress = some mapping.address ∧
          state.conn.fileState.size = mapping.length) ∧
      state.made.Perm (state.live ++ state.unmapped) ∧ state.overwritten = [] ∧
      state.strayUnmaps = [])
    ⟨fun ⟨one, known, once, kept, proper⟩ => ⟨one, known, once, kept, proper⟩,
      fun paired => ⟨paired.1, paired.2, paired.3, paired.4, paired.5⟩⟩

end MappedConn

namespace HttpConn

/-- The request in the buffer is complete, and `stat` finds its file. -/
def findsFile (files : FileSystem) (fuel : Nat) (conn : HttpConn) : Bool :=
  match conn.requestedPath fuel with
  | .ok (some path) => (files.stat path).isSome
  | .ok none => false
  | .error _ => false

/-- Whether the loop of `write` gets to `unmap`: `writev` fails, or enough is sent. -/
def loopUnmaps (bytesToSend bytesHaveSend : Int) : List WritevResult → Bool
  | [] => false
  | .again :: _ => false
  | .error :: _ => true
  | .sent count :: results =>
      decide (bytesToSend - count ≤ bytesHaveSend + count) ||
        loopUnmaps (bytesToSend - count) (bytesHaveSend + count) results

/-- Whether `write` gets to `unmap`. -/
def writeUnmaps (conn : HttpConn) (results : List WritevResult) : Bool :=
  decide (conn.writeIdx ≠ 0) && loopUnmaps conn.writeIdx 0 results

end HttpConn

namespace MappedConn

/-- `process` looks up a file only when the last one is unmapped, and `unmap` finds the
null pointer or a mapping in `m_file_address`. -/
def Releases (state : MappedConn) : Op → Prop
  | .init _ => True
  | .read _ => True
  | .process files fuel => state.conn.findsFile files fuel = true → state.live = []
  | .write results =>
      state.conn.writeUnmaps results = true → state.conn.fileAddress = none ∨ state.live ≠ []
  | .closeConn => True

end MappedConn

end HPLinuxServer.Http
