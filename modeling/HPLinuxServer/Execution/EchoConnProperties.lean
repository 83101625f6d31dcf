import HPLinuxServer.Execution.EchoConn

/-!
# Connections of the echo server: the buffer and the echo

`m_read_idx` grows with every message, while each message stands at the start of a cleared
buffer. A message with a line end is cut there. In one without, the scan goes up to
`m_read_idx`, and the byte in front of that is overwritten.
-/

set_option autoImplicit false

namespace HPLinuxServer.Execution

open Memory Refinement

namespace EchoConn

variable {buf : Buffer echoBufferSize} {bytes : Text} {idx position count : Nat}

/-- The buffer with a message. -/
def holding (bytes : Text) : Buffer echoBufferSize := (Buffer.zero echoBufferSize).copyIn 0 bytes

theorem holding_bytes (fits : bytes.length ≤ echoBufferSize - 1) :
    (holding bytes).bytes = bytes ++ List.replicate (echoBufferSize - bytes.length) 0 := by
  unfold holding
  rw [Buffer.copyIn_bytes (by unfold echoBufferSize at *; omega), List.take_zero,
    List.nil_append, Nat.zero_add]
  unfold Buffer.zero
  rw [List.drop_replicate]

theorem holding_behind (fits : bytes.length ≤ echoBufferSize - 1) (behind : bytes.length ≤ idx)
    (inside : idx < echoBufferSize) : (holding bytes).bytes[idx]? = some 0 := by
  rw [holding_bytes fits, List.getElem?_append_right behind, List.getElem?_replicate,
    if_pos (by omega)]

theorem endsAt_holding (fits : bytes.length ≤ echoBufferSize - 1) :
    EndsAt (holding bytes).bytes position ↔ EndsAt bytes position := by
  rcases Nat.lt_or_ge (position + 1) bytes.length with inside | outside
  · rw [holding_bytes fits, endsAt_append inside]
  · constructor
    · intro ends
      have within : position + 1 < echoBufferSize := (holding bytes).length_bytes ▸ ends.inside
      have nul := holding_behind fits outside within
      exact absurd (Option.some.inj (nul.symm.trans ends.2)) (by decide)
    · exact fun ends => absurd ends.inside (Nat.not_lt.mpr outside)

/-! ## The scan -/

theorem lineEndsAt_zero (buf : Buffer echoBufferSize) : lineEndsAt buf 0 = .ok false := rfl

theorem lineEndsAt_succ (inside : idx + 1 < echoBufferSize) :
    lineEndsAt buf (idx + 1) = .ok (decide (EndsAt buf.bytes idx)) := by
  have length := buf.length_bytes
  obtain ⟨first, before⟩ : ∃ byte, buf.bytes[idx]? = some byte :=
    ⟨_, List.getElem?_eq_getElem (by omega)⟩
  obtain ⟨second, here⟩ : ∃ byte, buf.bytes[idx + 1]? = some byte :=
    ⟨_, List.getElem?_eq_getElem (by omega)⟩
  have both : EndsAt buf.bytes idx ↔ first = 13 ∧ second = 10 := by
    unfold EndsAt
    rw [before, here, Option.some_inj, Option.some_inj]
  unfold lineEndsAt
  rw [if_neg (by omega), Nat.add_sub_cancel, Buffer.load_eq before, Buffer.load_eq here, ok_bind,
    ok_bind]
  split
  · next other => exact congrArg Except.ok (decide_eq_false fun ends => other (both.mp ends).1).symm
  · next same =>
      have rest : second = 10 ↔ EndsAt buf.bytes idx :=
        (and_iff_right (Classical.not_not.mp same)).symm.trans both.symm
      exact congrArg Except.ok (decide_eq_decide.mpr rest)

/-- The last byte of the buffer is no carriage return, so the one behind it is not read. -/
theorem lineEndsAt_size (nul : buf.bytes[echoBufferSize - 1]? = some 0) :
    lineEndsAt buf echoBufferSize = .ok false := by
  unfold lineEndsAt
  rw [Buffer.load_eq nul]
  rfl

theorem lineEndsAt_outside (outside : echoBufferSize ≤ idx) :
    lineEndsAt buf (idx + 1) = .error .outOfBounds := by
  have beyond : buf.bytes[idx]? = none :=
    List.getElem?_eq_none (buf.length_bytes.symm ▸ outside)
  unfold lineEndsAt Buffer.load
  rw [if_neg (by omega), Nat.add_sub_cancel, beyond]
  rfl

theorem scan_passes (passed : ∀ i < count, lineEndsAt buf (idx + i) = .ok false)
    (remaining : Nat) : scan buf (count + remaining) idx = scan buf remaining (idx + count) := by
  induction count generalizing idx with
  | zero => rw [Nat.zero_add, Nat.add_zero]
  | succ count ih =>
      have here := passed 0 (Nat.succ_pos count)
      have rest : ∀ i < count, lineEndsAt buf (idx + 1 + i) = .ok false := by
        intro i below
        rw [Nat.add_assoc, Nat.add_comm 1 i]
        exact passed (i + 1) (Nat.succ_lt_succ below)
      rw [Nat.add_zero] at here
      calc scan buf (count + 1 + remaining) idx
          = scan buf (count + remaining + 1) idx := by rw [Nat.add_right_comm]
        _ = scan buf (count + remaining) (idx + 1) := by
            conv => enter [1]; unfold scan
            rw [here]
            rfl
        _ = scan buf remaining (idx + 1 + count) := ih rest
        _ = scan buf remaining (idx + (count + 1)) := by rw [Nat.add_assoc, Nat.add_comm 1]

theorem passes_of_never (fits : bytes.length ≤ echoBufferSize - 1)
    (before : ∀ earlier, earlier + 1 < count → ¬ EndsAt bytes earlier)
    (inside : count ≤ echoBufferSize + 1) :
    ∀ i < count, lineEndsAt (holding bytes) (0 + i) = .ok false := by
  intro i below
  rw [Nat.zero_add]
  cases i with
  | zero => exact lineEndsAt_zero _
  | succ i =>
      rcases Nat.lt_or_ge (i + 1) echoBufferSize with within | outside
      · rw [lineEndsAt_succ within,
          decide_eq_false (mt (endsAt_holding fits).mp (before i below))]
      · have last : i + 1 = echoBufferSize := by omega
        rw [last]
        exact lineEndsAt_size (holding_behind fits fits (by decide))

/-- The scan stops at the first line end. -/
theorem scan_ends (fits : bytes.length ≤ echoBufferSize - 1) (ends : EndsAt bytes position)
    (before : ∀ earlier < position, ¬ EndsAt bytes earlier) {limit : Nat}
    (read : bytes.length ≤ limit) : scan (holding bytes) limit 0 = .ok (position + 1) := by
  have inside := ends.inside
  obtain ⟨more, rfl⟩ : ∃ more, limit = position + 1 + (more + 1) :=
    ⟨limit - (position + 2), by omega⟩
  rw [scan_passes (passes_of_never fits (fun earlier below => before earlier (by omega))
    (by omega))]
  unfold scan
  rw [Nat.zero_add, lineEndsAt_succ (by omega), decide_eq_true ((endsAt_holding fits).mpr ends)]
  rfl

theorem scan_never (fits : bytes.length ≤ echoBufferSize - 1)
    (never : ∀ position, ¬ EndsAt bytes position) {limit : Nat}
    (inside : limit ≤ echoBufferSize + 1) : scan (holding bytes) limit 0 = .ok limit := by
  have passed := scan_passes (passes_of_never fits (fun earlier _ => never earlier) inside) 0
  rw [Nat.add_zero, Nat.zero_add] at passed
  exact passed

/-- Beyond that it reads behind the buffer. -/
theorem scan_outside (fits : bytes.length ≤ echoBufferSize - 1)
    (never : ∀ position, ¬ EndsAt bytes position) {limit : Nat}
    (outside : echoBufferSize + 1 < limit) :
    scan (holding bytes) limit 0 = .error .outOfBounds := by
  obtain ⟨more, rfl⟩ : ∃ more, limit = echoBufferSize + 1 + (more + 1) :=
    ⟨limit - (echoBufferSize + 2), by omega⟩
  rw [scan_passes (passes_of_never fits (fun earlier _ => never earlier) (Nat.le_refl _))]
  unfold scan
  rw [Nat.zero_add, lineEndsAt_outside (Nat.le_refl _)]
  rfl

/-! ## One call -/

variable {conn : EchoConn} {received index : Nat}

theorem storeNul_eq (inside : index < echoBufferSize) :
    storeNul buf ((index + 1 : Nat) - 1 : Int) = .ok (buf.store index 0) := by
  unfold storeNul
  rw [Int.natCast_succ, Int.add_sub_cancel, if_pos ⟨by omega, by omega⟩, Int.toNat_natCast]

theorem storeNul_outside (outside : echoBufferSize ≤ index) :
    storeNul buf ((index + 1 : Nat) - 1 : Int) = .error .outOfBounds := by
  unfold storeNul
  rw [Int.natCast_succ, Int.add_sub_cancel, if_neg (by omega)]

/-- The call that receives the message and puts the NUL at `index`. -/
def echoed (bytes : Text) (received index : Nat) : Processed where
  conn := ⟨(holding bytes).store index 0, received⟩
  ret := 1
  removed := false
  sent := some ((holding bytes).store index 0)

/-- What a call with a message comes to, behind the computation of `m_read_idx`. -/
theorem process_data (before : conn.readIdx = received) (nonempty : bytes ≠ [])
    (fits : bytes.length ≤ echoBufferSize - 1)
    (small : received + bytes.length ≤ 2147483647) :
    conn.process (.data bytes fits) = (do
      let idx ← scan (holding bytes) (received + bytes.length) 0
      let buf ← storeNul (holding bytes) ((idx : Int) - 1)
      return {
        conn := ⟨buf, (received + bytes.length : Nat)⟩
        ret := 1
        removed := false
        sent := some buf }) := by
  have nul : (holding bytes).bytes[echoBufferSize - 1]? = some 0 :=
    holding_behind fits fits (by decide)
  obtain ⟨printed, holds⟩ := Buffer.holds_of_nul (Nat.zero_le _) nul
  have someBytes : bytes.length ≠ 0 := mt List.length_eq_zero_iff.mp nonempty
  have total : (received : Int) + bytes.length = (received + bytes.length : Nat) :=
    (Int.natCast_add _ _).symm
  unfold process
  dsimp only
  rw [if_neg someBytes]
  unfold processData
  rw [before, total, checkInt_eq_ok (by omega) (by omega), ok_bind, Int.toNat_natCast]
  exact congrArg (· >>= _) holds.text_eq

theorem process_overflow (before : conn.readIdx = received) (nonempty : bytes ≠ [])
    (fits : bytes.length ≤ echoBufferSize - 1)
    (large : 2147483647 < received + bytes.length) :
    conn.process (.data bytes fits) = .error .signedOverflow := by
  have someBytes : bytes.length ≠ 0 := mt List.length_eq_zero_iff.mp nonempty
  unfold process
  dsimp only
  rw [if_neg someBytes]
  unfold processData checkInt
  rw [before, if_neg (by omega)]
  rfl

theorem process_ends (before : conn.readIdx = received) (fits : bytes.length ≤ echoBufferSize - 1)
    (small : received + bytes.length ≤ 2147483647) (ends : EndsAt bytes position)
    (first : ∀ earlier < position, ¬ EndsAt bytes earlier) :
    conn.process (.data bytes fits) = .ok (echoed bytes (received + bytes.length) position) := by
  have inside := ends.inside
  have nonempty : bytes ≠ [] := List.length_pos_iff.mp (by omega)
  rw [process_data before nonempty fits small, scan_ends fits ends first (Nat.le_add_left _ _),
    ok_bind, storeNul_eq (by unfold echoBufferSize at *; omega)]
  rfl

theorem process_never (before : conn.readIdx = received) (nonempty : bytes ≠ [])
    (fits : bytes.length ≤ echoBufferSize - 1) (never : ∀ position, ¬ EndsAt bytes position)
    (inside : received + bytes.length ≤ echoBufferSize) :
    conn.process (.data bytes fits) =
      .ok (echoed bytes (received + bytes.length) (received + bytes.length - 1)) := by
  have positive : 0 < bytes.length := List.length_pos_iff.mpr nonempty
  have last : received + bytes.length = received + bytes.length - 1 + 1 := by omega
  rw [process_data before nonempty fits (by unfold echoBufferSize at *; omega),
    scan_never fits never (Nat.le_succ_of_le inside), ok_bind]
  conv => enter [1, 1, 2]; rw [last]
  rw [storeNul_eq (by omega)]
  rfl

theorem process_outside (before : conn.readIdx = received) (nonempty : bytes ≠ [])
    (fits : bytes.length ≤ echoBufferSize - 1) (never : ∀ position, ¬ EndsAt bytes position)
    (small : received + bytes.length ≤ 2147483647)
    (outside : echoBufferSize < received + bytes.length) :
    conn.process (.data bytes fits) = .error .outOfBounds := by
  rw [process_data before nonempty fits small]
  rcases Nat.lt_or_ge (echoBufferSize + 1) (received + bytes.length) with behind | last
  · rw [scan_outside fits never behind]
    rfl
  · have right : received + bytes.length = echoBufferSize + 1 := by omega
    rw [right, scan_never fits never (Nat.le_refl _), ok_bind,
      storeNul_outside (Nat.le_refl _)]
    rfl

/-- The call returns; and if it receives data without NUL bytes, what it sends is their first
line. -/
def Echoes (conn : EchoConn) (input : EchoReceived) : Prop :=
  ∃ done, conn.process input = .ok done ∧ ∀ bytes fits, input = .data bytes fits →
    bytes ≠ [] → 0 ∉ bytes → ∃ buf, done.sent = some buf ∧ buf.text 0 = .ok (firstLine bytes)

/-- `received` bytes came before. Then `m_read_idx` does not overflow; and the data has a
line end, or all bytes so far would fit into the buffer and either these are not the first
ones or a NUL is among them. -/
def Fits (received : Nat) : EchoReceived → Prop
  | .again => True
  | .failed => True
  | .data bytes _ => bytes = [] ∨ received + bytes.length ≤ 2147483647 ∧
      (lineEnd <:+: bytes ∨
        received + bytes.length ≤ echoBufferSize ∧ (0 < received ∨ 0 ∈ bytes))

instance (received : Nat) : ∀ input, Decidable (Fits received input)
  | .again => inferInstanceAs (Decidable True)
  | .failed => inferInstanceAs (Decidable True)
  | .data _ _ => inferInstanceAs (Decidable (_ ∨ _ ∧ (_ ∨ _ ∧ (_ ∨ _))))

def grow (received : Nat) : EchoReceived → Nat
  | .again => received
  | .failed => received
  | .data bytes _ => received + bytes.length

theorem not_echoes {input : EchoReceived} {fault : Fault}
    (failed : conn.process input = .error fault) : ¬ Echoes conn input := by
  rintro ⟨done, returned, -⟩
  rw [failed] at returned
  exact nomatch returned

theorem echoes_echoed_iff (fits : bytes.length ≤ echoBufferSize - 1) (nonempty : bytes ≠ [])
    (returned : conn.process (.data bytes fits) = .ok (echoed bytes received index)) :
    Echoes conn (.data bytes fits) ↔
      (0 ∉ bytes → bytes.take index = firstLine bytes) := by
  have sent (clean : 0 ∉ bytes) :
      ((holding bytes).store index 0).text 0 = .ok (bytes.take index) := by
    have holds : (holding bytes).Holds 0 bytes :=
      Buffer.holds_copyIn_zero clean (by unfold echoBufferSize at *; omega)
    rw [← Nat.zero_add index]
    rcases Nat.lt_or_ge index bytes.length with inside | behind
    · rw [(holds.store_nul index inside).text_eq, Nat.zero_add]
    · rw [(holds.store_nul_behind index behind).text_eq, Nat.zero_add, List.take_of_length_le behind]
  constructor
  · rintro ⟨done, ended, echo⟩ clean
    obtain rfl := Except.ok.inj (returned.symm.trans ended)
    obtain ⟨buf, ⟨⟩, text⟩ := echo bytes fits rfl nonempty clean
    exact Except.ok.inj ((sent clean).symm.trans text)
  · intro line
    refine ⟨_, returned, ?_⟩
    rintro _ _ ⟨⟩ - clean
    exact ⟨_, rfl, (sent clean).trans (congrArg Except.ok (line clean))⟩

theorem echoes_data_iff (before : conn.readIdx = received) (nonempty : bytes ≠ [])
    (fits : bytes.length ≤ echoBufferSize - 1) :
    Echoes conn (.data bytes fits) ↔ Fits received (.data bytes fits) := by
  have positive : 0 < bytes.length := List.length_pos_iff.mpr nonempty
  unfold Fits
  dsimp only
  rw [or_iff_right nonempty]
  rcases Nat.lt_or_ge 2147483647 (received + bytes.length) with large | small
  · have overflow := process_overflow before nonempty fits large
    exact iff_of_false (not_echoes overflow) fun fitting => absurd fitting.1 (Nat.not_le.mpr large)
  rw [and_iff_right small]
  rcases firstLine_spec bytes with ⟨position, ends, first, line⟩ | ⟨never, line⟩
  · have whole : lineEnd <:+: bytes := exists_endsAt_iff.mp ⟨position, ends⟩
    exact iff_of_true
      ((echoes_echoed_iff fits nonempty (process_ends before fits small ends first)).mpr
        fun _ => line.symm) (.inl whole)
  have noEnd : ¬ lineEnd <:+: bytes := fun whole => (exists_endsAt_iff.mpr whole).elim never
  rw [or_iff_right noEnd]
  rcases Nat.lt_or_ge echoBufferSize (received + bytes.length) with outside | inside
  · have left := process_outside before nonempty fits never small outside
    exact iff_of_false (not_echoes left) fun fitting => absurd fitting.1 (Nat.not_le.mpr outside)
  rw [and_iff_right inside,
    echoes_echoed_iff fits nonempty (process_never before nonempty fits never inside), line]
  constructor
  · intro echo
    rcases Decidable.em (0 ∈ bytes) with nul | clean
    · exact .inr nul
    · -- the byte in front of `m_read_idx` is the last one of the first message
      have kept := congrArg List.length (echo clean)
      rw [List.length_take] at kept
      exact .inl (by omega)
  · intro later clean
    have later := later.resolve_right clean
    exact List.take_of_length_le (by omega)

/-- A message that fits is echoed, with the NUL at one place or another. -/
theorem process_of_fits (before : conn.readIdx = received) (nonempty : bytes ≠ [])
    (fits : bytes.length ≤ echoBufferSize - 1) (fitting : Fits received (.data bytes fits)) :
    ∃ index, conn.process (.data bytes fits) =
      .ok (echoed bytes (received + bytes.length) index) := by
  obtain ⟨small, room⟩ := fitting.resolve_left nonempty
  rcases firstLine_spec bytes with ⟨position, ends, first, -⟩ | ⟨never, -⟩
  · exact ⟨_, process_ends before fits small ends first⟩
  · have noEnd : ¬ lineEnd <:+: bytes := fun whole => (exists_endsAt_iff.mpr whole).elim never
    exact ⟨_, process_never before nonempty fits never (room.resolve_left noEnd).1⟩

theorem echoes_iff (before : conn.readIdx = received) (input : EchoReceived) :
    Echoes conn input ↔ Fits received input := by
  cases input with
  | again => exact ⟨fun _ => trivial, fun _ => ⟨_, rfl, nofun⟩⟩
  | failed => exact ⟨fun _ => trivial, fun _ => ⟨_, rfl, nofun⟩⟩
  | data bytes fits =>
      cases bytes with
      | nil =>
          refine ⟨fun _ => .inl rfl, fun _ => ⟨_, rfl, ?_⟩⟩
          rintro _ _ ⟨⟩ nonempty
          exact absurd rfl nonempty
      | cons byte rest => exact echoes_data_iff before (List.cons_ne_nil byte rest) fits

theorem exec_of_fits (before : conn.readIdx = received) {input : EchoReceived}
    (fitting : Fits received input) :
    ∃ next, conn.exec input = .ok next ∧ next.readIdx = grow received input := by
  cases input with
  | again => exact ⟨_, rfl, before⟩
  | failed => exact ⟨_, rfl, before⟩
  | data bytes fits =>
      cases bytes with
      | nil => exact ⟨_, rfl, before⟩
      | cons byte rest =>
          obtain ⟨index, returned⟩ :=
            process_of_fits before (List.cons_ne_nil byte rest) fits fitting
          refine ⟨_, congrArg (Except.map Processed.conn) returned, ?_⟩
          rfl

end EchoConn

open EchoConn in
/-- In a sequence of calls each one keeps to the buffer and echoes its line exactly if each
fits what was received before it. -/
theorem echoConn_echoes_iff (inputs : List EchoReceived) :
    StepsMeet Echoes exec init inputs ↔ AllowedRun Fits grow 0 inputs := by
  have exactly : ∀ (conn : EchoConn) (received : Nat) (input : EchoReceived),
      conn.readIdx = received → (Echoes conn input ↔ Fits received input) :=
    fun _ _ input before => echoes_iff before input
  have keeps : ∀ (conn : EchoConn) (received : Nat) (input : EchoReceived),
      conn.readIdx = received → Fits received input →
        ∃ next, exec conn input = .ok next ∧ next.readIdx = grow received input :=
    fun _ _ _ before fits => exec_of_fits before fits
  have start : init.readIdx = (0 : Nat) := rfl
  exact stepsMeet_iff_allowedRun exactly keeps start

/-- A single message without a line end is sent back without its last byte. -/
theorem echoConn_cuts :
    ¬∀ inputs : List EchoReceived,
      StepsMeet EchoConn.Echoes EchoConn.exec EchoConn.init inputs := by
  intro claimed
  have echo := (claimed [.data [104, 105] (by decide)]).1
  exact absurd ((EchoConn.echoes_iff rfl _).mp echo) (by decide)

end HPLinuxServer.Execution
