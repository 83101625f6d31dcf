import HPLinuxServer.Memory.Footprint
import HPLinuxServer.Http.HttpConn

/-!
# What `parse_line` does

It walks over bytes that end no line and decides at the first one that does.
-/

set_option autoImplicit false

namespace HPLinuxServer.Http

open Memory

/-- A byte that ends a line or is part of an end. -/
def EndsLine (byte : UInt8) : Prop := byte = carriageReturn ∨ byte = lineFeed

instance (byte : UInt8) : Decidable (EndsLine byte) :=
  inferInstanceAs (Decidable (_ ∨ _))

/-- Cut a text at the first byte that ends a line, if there is one. -/
theorem cut_line (text : Text) :
    OneLine text ∨ ∃ front byte rest, text = front ++ byte :: rest ∧ OneLine front ∧
      EndsLine byte := by
  rcases cut_at text crlf with none | ⟨front, byte, rest, split, outside, found⟩
  · left
    simpa [OneLine, crlf] using none
  · right
    refine ⟨front, byte, rest, split, ?_, ?_⟩
    · simpa [OneLine, crlf] using outside
    · simpa [EndsLine, crlf] using found

namespace HttpConn

/-- Two runs from buffers that agree on a region return the same and keep to the region. -/
def SameOutcome {α : Type} (region : Nat → Prop) (conn : HttpConn) (other : Buffer readBufferSize)
    (first second : Except Fault (HttpConn × α)) : Prop :=
  ∃ conn' value other', first = .ok (conn', value) ∧
    second = .ok ({ conn' with readBuf := other' }, value) ∧ conn'.stray = conn.stray ∧
    Buffer.Confined region conn.readBuf other conn'.readBuf other'

/-- The function returns and keeps to a region of `m_read_buf`: what it does depends on no
other byte, and it stores nothing elsewhere. -/
def AccessesOnly {α : Type} (region : Nat → Prop) (conn : HttpConn)
    (function : HttpConn → Except Fault (HttpConn × α)) : Prop :=
  ∀ other, conn.readBuf.AgreesOn region other →
    conn.SameOutcome region other (function conn) (function { conn with readBuf := other })

namespace SameOutcome

variable {α : Type} {region : Nat → Prop} {conn : HttpConn} {other : Buffer readBufferSize}
  {first second first' second' : Except Fault (HttpConn × α)}

theorem ite {condition : Prop} [Decidable condition]
    (yes : conn.SameOutcome region other first second)
    (no : conn.SameOutcome region other first' second') :
    conn.SameOutcome region other (if condition then first else first')
      (if condition then second else second') := by
  by_cases holds : condition
  · rw [if_pos holds, if_pos holds]
    exact yes
  · rw [if_neg holds, if_neg holds]
    exact no

theorem after {moved : HttpConn} {other' : Buffer readBufferSize}
    (later : moved.SameOutcome region other' first second) (stray : moved.stray = conn.stray)
    (confined : Buffer.Confined region conn.readBuf other moved.readBuf other') :
    conn.SameOutcome region other first second := by
  obtain ⟨conn', value, other'', done, done', kept, confined'⟩ := later
  exact ⟨conn', value, other'', done, done', kept.trans stray, confined.trans confined'⟩

end SameOutcome

/-- The received bytes, of which `received` is what the buffer holds now. -/
structure Received (conn : HttpConn) (received : Text) : Prop where
  bytes : received <+: conn.readBuf.bytes
  readIdx : conn.readIdx = received.length

variable {conn : HttpConn} {received : Text}

theorem storeRead_inside {index : Nat} (inside : index < readBufferSize) (byte : UInt8) :
    conn.storeRead index byte = { conn with readBuf := conn.readBuf.store index byte } := by
  unfold storeRead
  rw [if_pos ⟨Int.natCast_nonneg index, Int.ofNat_lt.mpr inside⟩, Int.toNat_natCast]

theorem storeRead_bytes_other {target : Int} {index : Nat} (apart : target ≠ index) (byte : UInt8) :
    (conn.storeRead target byte).readBuf.bytes[index]? = conn.readBuf.bytes[index]? := by
  unfold storeRead
  split
  · exact Buffer.store_bytes_other (by omega) byte
  · rfl

@[simp] theorem storeRead_checkedIdx (target : Int) (byte : UInt8) :
    (conn.storeRead target byte).checkedIdx = conn.checkedIdx := by
  unfold storeRead
  split <;> rfl

theorem endLine_bytes_other {index : Nat} (notBefore : index + 1 ≠ conn.checkedIdx)
    (notHere : index ≠ conn.checkedIdx) :
    conn.endLine.readBuf.bytes[index]? = conn.readBuf.bytes[index]? := by
  unfold endLine
  simp only [storeRead_checkedIdx]
  rw [storeRead_bytes_other (by omega), storeRead_bytes_other (by omega)]

variable (conn) in
theorem endLine_bytes_here (inside : conn.checkedIdx < readBufferSize) :
    conn.endLine.readBuf.bytes[conn.checkedIdx]? = some 0 := by
  unfold endLine
  simp only [storeRead_checkedIdx]
  rw [storeRead_inside inside]
  exact Buffer.store_bytes_self inside 0

theorem endLine_frame :
    conn.endLine = { conn with
      readBuf := conn.endLine.readBuf
      stray := conn.endLine.stray
      checkedIdx := conn.checkedIdx + 1 } := by
  unfold endLine storeRead
  dsimp only
  split
  · split <;> rfl
  · split <;> rfl

theorem Received.byte (holds : conn.Received received) {index : Nat} {byte : UInt8}
    (found : received[index]? = some byte) : conn.readBuf.bytes[index]? = some byte := by
  obtain ⟨unused, bytes⟩ := holds.bytes
  rw [← bytes, List.getElem?_append_left (List.getElem?_eq_some_iff.mp found).1]
  exact found

theorem Received.load (holds : conn.Received received) {index : Nat} {byte : UInt8}
    (found : received[index]? = some byte) : conn.readBuf.load index = .ok byte :=
  Buffer.load_eq (holds.byte found)

theorem Received.parseLineLoop_skip (holds : conn.Received received) {front rest : Text}
    (ahead : received.drop conn.checkedIdx = front ++ rest) (plain : OneLine front) (rounds : Nat) :
    conn.parseLineLoop (front.length + rounds) =
      { conn with checkedIdx := conn.checkedIdx + front.length }.parseLineLoop rounds := by
  induction front generalizing conn with
  | nil => simp
  | cons byte front ih =>
      have found : received[conn.checkedIdx]? = some byte := by
        have first := congrArg List.head? ahead
        rwa [List.head?_drop] at first
      have notEnd : byte ≠ carriageReturn ∧ byte ≠ lineFeed := plain byte List.mem_cons_self
      have next : received.drop (conn.checkedIdx + 1) = front ++ rest := by
        rw [← List.drop_drop, ahead]
        rfl
      have moved : { conn with checkedIdx := conn.checkedIdx + 1 }.Received received :=
        ⟨holds.bytes, holds.readIdx⟩
      have skipped := ih moved next fun other member => plain other (List.mem_cons_of_mem _ member)
      rw [List.length_cons, Nat.add_right_comm, parseLineLoop]
      simp only [holds.load found, ok_bind, if_neg notEnd.1, if_neg notEnd.2]
      rw [skipped]
      simp only [Nat.add_assoc, Nat.add_comm 1]

/-- No line ends in what is left: all of it is checked. -/
theorem Received.parseLine_open (holds : conn.Received received)
    (plain : OneLine (received.drop conn.checkedIdx)) (inside : conn.checkedIdx ≤ received.length) :
    conn.parseLine = .ok ({ conn with checkedIdx := received.length }, .lineOpen) := by
  have length : conn.readIdx - conn.checkedIdx = (received.drop conn.checkedIdx).length + 0 := by
    rw [holds.readIdx, List.length_drop]
    omega
  have finish : conn.checkedIdx + (received.drop conn.checkedIdx).length = received.length := by
    rw [List.length_drop]
    omega
  unfold parseLine
  rw [length, holds.parseLineLoop_skip (List.append_nil _).symm plain, finish]
  rfl

theorem Received.parseLine_skip (holds : conn.Received received) {front rest : Text} {byte : UInt8}
    (ahead : received.drop conn.checkedIdx = front ++ byte :: rest) (plain : OneLine front) :
    conn.parseLine =
      { conn with checkedIdx := conn.checkedIdx + front.length }.parseLineLoop
        (rest.length + 1) := by
  have length : conn.readIdx - conn.checkedIdx = front.length + (rest.length + 1) := by
    have total := congrArg List.length ahead
    simp only [List.length_drop, List.length_append, List.length_cons] at total
    rw [holds.readIdx]
    omega
  unfold parseLine
  rw [length, holds.parseLineLoop_skip ahead plain]

/-- The byte at `m_checked_idx` and what follows it. -/
theorem Received.ahead (holds : conn.Received received) {byte : UInt8} {rest : Text}
    (ahead : received.drop conn.checkedIdx = byte :: rest) :
    conn.readBuf.load conn.checkedIdx = .ok byte ∧
      received.drop (conn.checkedIdx + 1) = rest ∧
      conn.checkedIdx + 1 + rest.length = conn.readIdx := by
  have next : received.drop (conn.checkedIdx + 1) = rest := by
    rw [← List.drop_drop, ahead]
    rfl
  have found : received[conn.checkedIdx]? = some byte := by
    have first := congrArg List.head? ahead
    rwa [List.head?_drop] at first
  refine ⟨holds.load found, next, ?_⟩
  have inside := (List.getElem?_eq_some_iff.mp found).1
  rw [holds.readIdx, ← next, List.length_drop]
  omega

/-- What `parse_line` does with the byte it stops at. -/
theorem parseLineLoop_stop {byte : UInt8} (found : conn.readBuf.load conn.checkedIdx = .ok byte)
    (ends : EndsLine byte) (rounds : Nat) :
    conn.parseLineLoop (rounds + 1) =
      if byte = carriageReturn then
        if conn.checkedIdx + 1 = conn.readIdx then .ok (conn, .lineOpen)
        else conn.readBuf.load (conn.checkedIdx + 1) >>= fun next =>
          if next = lineFeed then .ok (conn.endLine, .lineOk) else .ok (conn, .lineBad)
      else conn.readBuf.load (conn.checkedIdx - 1) >>= fun previous =>
        if conn.checkedIdx > 1 ∧ previous = carriageReturn then .ok (conn.endLine, .lineOk)
        else .ok (conn, .lineBad) := by
  rw [parseLineLoop]
  simp only [found, ok_bind, pure_eq_ok]
  by_cases isReturn : byte = carriageReturn
  · rw [if_pos isReturn, if_pos isReturn]
  · rw [if_neg isReturn, if_neg isReturn, if_pos (ends.resolve_left isReturn)]

theorem Received.parseLineLoop_last (holds : conn.Received received)
    (ahead : received.drop conn.checkedIdx = [carriageReturn]) (rounds : Nat) :
    conn.parseLineLoop (rounds + 1) = .ok (conn, .lineOpen) := by
  obtain ⟨found, -, last⟩ := holds.ahead ahead
  rw [parseLineLoop_stop found (.inl rfl), if_pos rfl, if_pos (by simpa using last)]

theorem Received.parseLineLoop_return (holds : conn.Received received) {byte : UInt8} {rest : Text}
    (ahead : received.drop conn.checkedIdx = carriageReturn :: byte :: rest) (rounds : Nat) :
    conn.parseLineLoop (rounds + 1) =
      if byte = lineFeed then .ok (conn.endLine, .lineOk) else .ok (conn, .lineBad) := by
  obtain ⟨found, next, more⟩ := holds.ahead ahead
  have moved : { conn with checkedIdx := conn.checkedIdx + 1 }.Received received :=
    ⟨holds.bytes, holds.readIdx⟩
  have foundNext : conn.readBuf.load (conn.checkedIdx + 1) = .ok byte := (moved.ahead next).1
  have notLast : ¬ conn.checkedIdx + 1 = conn.readIdx := by
    simp only [List.length_cons] at more
    omega
  rw [parseLineLoop_stop found (.inl rfl), if_pos rfl, if_neg notLast, foundNext, ok_bind]

end HttpConn

end HPLinuxServer.Http
