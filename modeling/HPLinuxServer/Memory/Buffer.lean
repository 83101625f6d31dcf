import HPLinuxServer.Memory.Heap

/-!
# Byte buffers and C strings

Arrays of `char` of a fixed size. A C string is what stands in such a buffer from
an offset up to the first NUL; a scan that meets none leaves the buffer.
-/

set_option autoImplicit false

namespace HPLinuxServer.Memory

/-- The bytes of a C string, without the NUL that ends it. -/
abbrev Text := List UInt8

structure Buffer (size : Nat) where
  bytes : List UInt8
  length_bytes : bytes.length = size
  deriving DecidableEq, Repr

namespace Buffer

variable {size : Nat}

@[ext] theorem ext {buffer other : Buffer size} (same : buffer.bytes = other.bytes) :
    buffer = other := by
  cases buffer
  cases other
  cases same
  rfl

/-- `memset(buffer, '\0', size)` -/
def zero (size : Nat) : Buffer size where
  bytes := List.replicate size 0
  length_bytes := List.length_replicate

def load (buffer : Buffer size) (index : Nat) : Except Fault UInt8 :=
  match buffer.bytes[index]? with
  | some byte => .ok byte
  | none => .error .outOfBounds

/-- A store inside of the buffer; outside of it nothing changes. -/
def store (buffer : Buffer size) (index : Nat) (byte : UInt8) : Buffer size where
  bytes := buffer.bytes.set index byte
  length_bytes := by rw [List.length_set, buffer.length_bytes]

/-- `data` from `offset` on, as far as it fits. -/
def copyIn (buffer : Buffer size) (offset : Nat) (data : List UInt8) : Buffer size where
  bytes := (buffer.bytes.take offset ++ data ++ buffer.bytes.drop (offset + data.length)).take size
  length_bytes := by
    have length := buffer.length_bytes
    simp only [List.length_take, List.length_append, List.length_drop]
    omega

/-- The C string at `offset`. -/
def text (buffer : Buffer size) (offset : Nat) : Except Fault Text :=
  if 0 ∈ buffer.bytes.drop offset then
    .ok ((buffer.bytes.drop offset).takeWhile fun byte => byte ≠ 0)
  else .error .outOfBounds

/-- From `offset` on the buffer holds `text` and then a NUL. -/
def Holds (buffer : Buffer size) (offset : Nat) (text : Text) : Prop :=
  0 ∉ text ∧ ∃ rest, buffer.bytes.drop offset = text ++ 0 :: rest

variable {buffer : Buffer size} {offset index : Nat} {text : Text}

theorem load_eq {byte : UInt8} (found : buffer.bytes[index]? = some byte) :
    buffer.load index = .ok byte := by
  unfold load
  rw [found]

theorem takeWhile_nul {rest : List UInt8} (clean : 0 ∉ text) :
    (text ++ 0 :: rest).takeWhile (fun byte => byte ≠ 0) = text := by
  rw [List.takeWhile_append_of_pos]
  · simp
  · intro byte member
    exact decide_eq_true fun nul => clean (nul ▸ member)

theorem Holds.text_eq (holds : buffer.Holds offset text) : buffer.text offset = .ok text := by
  obtain ⟨clean, rest, bytes⟩ := holds
  unfold Buffer.text
  rw [bytes, if_pos (by simp), takeWhile_nul clean]

theorem Holds.byte (holds : buffer.Holds offset text) :
    buffer.bytes[offset]? = some (text.head?.getD 0) := by
  obtain ⟨-, rest, bytes⟩ := holds
  have first := congrArg List.head? bytes
  rw [List.head?_drop] at first
  rw [first]
  cases text with
  | nil => rfl
  | cons byte text => rfl

theorem Holds.load (holds : buffer.Holds offset text) :
    buffer.load offset = .ok (text.head?.getD 0) :=
  load_eq holds.byte

theorem holds_nil (nul : buffer.bytes[offset]? = some 0) : buffer.Holds offset [] := by
  obtain ⟨inside, value⟩ := List.getElem?_eq_some_iff.mp nul
  exact ⟨by simp, buffer.bytes.drop (offset + 1), by rw [List.drop_eq_getElem_cons inside, value]; rfl⟩

theorem holds_of_nul (behind : offset ≤ index) (nul : buffer.bytes[index]? = some 0) :
    ∃ text, buffer.Holds offset text := by
  have member : 0 ∈ buffer.bytes.drop offset := by
    apply List.mem_of_getElem? (i := index - offset)
    rw [List.getElem?_drop, Nat.add_sub_cancel' behind]
    exact nul
  obtain ⟨text, rest, bytes, clean⟩ := List.eq_append_cons_of_mem member
  exact ⟨text, clean, rest, bytes⟩

theorem text_of_nul {byte : UInt8} (found : buffer.bytes[offset]? = some byte) (notNul : byte ≠ 0)
    (behind : offset ≤ index) (nul : buffer.bytes[index]? = some 0) :
    ∃ rest, buffer.text offset = .ok (byte :: rest) := by
  obtain ⟨text, holds⟩ := holds_of_nul behind nul
  have first := holds.byte
  rw [found] at first
  cases text with
  | nil => exact absurd (Option.some.inj first) notNul
  | cons head rest =>
      obtain rfl : byte = head := Option.some.inj first
      exact ⟨rest, holds.text_eq⟩

theorem Holds.end_lt (holds : buffer.Holds offset text) : offset + text.length < size := by
  obtain ⟨-, rest, bytes⟩ := holds
  have length := congrArg List.length bytes
  rw [List.length_drop, buffer.length_bytes] at length
  simp only [List.length_append, List.length_cons] at length
  omega

theorem Holds.byte_inside (holds : buffer.Holds offset text) {position : Nat} {byte : UInt8}
    (found : text[position]? = some byte) : buffer.bytes[offset + position]? = some byte := by
  obtain ⟨-, rest, bytes⟩ := holds
  rw [← List.getElem?_drop, bytes, List.getElem?_append_left (List.getElem?_eq_some_iff.mp found).1]
  exact found

theorem Holds.end_le (holds : buffer.Holds offset text) (behind : offset ≤ index)
    (nul : buffer.bytes[index]? = some 0) : offset + text.length ≤ index := by
  rcases Nat.lt_or_ge index (offset + text.length) with inside | outside
  · have position : index - offset < text.length := by omega
    have here := holds.byte_inside (List.getElem?_eq_getElem position)
    rw [Nat.add_sub_cancel' behind, nul] at here
    exact absurd (Option.some.inj here ▸ List.getElem_mem position) holds.1
  · exact outside

theorem Holds.nul (holds : buffer.Holds offset text) :
    buffer.bytes[offset + text.length]? = some 0 := by
  obtain ⟨-, rest, bytes⟩ := holds
  rw [← List.getElem?_drop, bytes, List.getElem?_append_right (Nat.le_refl _), Nat.sub_self]
  rfl

theorem Holds.store_nul (holds : buffer.Holds offset text) (index : Nat)
    (inside : index < text.length) :
    (buffer.store (offset + index) 0).Holds offset (text.take index) := by
  obtain ⟨clean, rest, bytes⟩ := holds
  refine ⟨fun member => clean (List.mem_of_mem_take member),
    text.drop (index + 1) ++ 0 :: rest, ?_⟩
  unfold store
  rw [List.drop_set, if_neg (by omega), bytes, Nat.add_sub_cancel_left,
    List.set_append_left _ _ inside, List.set_eq_take_append_cons_drop, if_pos inside,
    List.append_assoc, List.cons_append]

theorem Holds.store_nul_behind (holds : buffer.Holds offset text) (index : Nat)
    (behind : text.length ≤ index) : (buffer.store (offset + index) 0).Holds offset text := by
  obtain ⟨clean, rest, bytes⟩ := holds
  refine ⟨clean, ((0 :: rest).set (index - text.length) 0).tail, ?_⟩
  unfold store
  rw [List.drop_set, if_neg (by omega), bytes, Nat.add_sub_cancel_left,
    List.set_append_right _ _ behind]
  cases index - text.length with
  | zero => rfl
  | succ further => rfl

theorem Holds.drop (holds : buffer.Holds offset text) (count : Nat) (inside : count ≤ text.length) :
    buffer.Holds (offset + count) (text.drop count) := by
  obtain ⟨clean, rest, bytes⟩ := holds
  refine ⟨fun member => clean (List.mem_of_mem_drop member), rest, ?_⟩
  rw [← List.drop_drop, bytes, List.drop_append_of_le_length inside]

theorem Holds.store_before (holds : buffer.Holds offset text) (index : Nat)
    (before : index < offset) (byte : UInt8) : (buffer.store index byte).Holds offset text := by
  obtain ⟨clean, rest, bytes⟩ := holds
  refine ⟨clean, rest, ?_⟩
  unfold store
  rw [List.drop_set, if_pos before, bytes]

theorem copyIn_bytes {data : List UInt8} (fits : offset + data.length ≤ size) :
    (buffer.copyIn offset data).bytes =
      buffer.bytes.take offset ++ data ++ buffer.bytes.drop (offset + data.length) := by
  have length := buffer.length_bytes
  apply List.take_of_length_le
  simp only [List.length_append, List.length_take, List.length_drop]
  omega

theorem holds_copyIn_zero (clean : 0 ∉ text) (fits : text.length < size) :
    ((zero size).copyIn 0 text).Holds 0 text := by
  refine ⟨clean, List.replicate (size - text.length - 1) 0, ?_⟩
  have more : size - text.length = size - text.length - 1 + 1 := by omega
  rw [List.drop_zero, copyIn_bytes (by omega), List.take_zero, List.nil_append, Nat.zero_add]
  unfold zero
  rw [List.drop_replicate, more, List.replicate_succ, Nat.add_sub_cancel]

theorem Holds.copyIn_behind (holds : buffer.Holds offset text) {target : Nat} {data : List UInt8}
    (behind : offset + text.length < target) (fits : target + data.length ≤ size) :
    (buffer.copyIn target data).Holds offset text := by
  obtain ⟨clean, rest, bytes⟩ := holds
  obtain ⟨more, apart⟩ : ∃ more, target - offset = text.length + (more + 1) :=
    ⟨target - offset - text.length - 1, by omega⟩
  refine ⟨clean, rest.take more ++ (data ++ buffer.bytes.drop (target + data.length)), ?_⟩
  have inside : offset ≤ (buffer.bytes.take target).length := by
    rw [List.length_take, buffer.length_bytes]
    omega
  rw [copyIn_bytes fits, List.append_assoc, List.drop_append_of_le_length inside, List.drop_take,
    bytes, apart, List.take_length_add_append, List.append_assoc]
  rfl

theorem copyIn_bytes_other {data : List UInt8} (fits : offset + data.length ≤ size)
    (apart : index < offset ∨ offset + data.length ≤ index) :
    (buffer.copyIn offset data).bytes[index]? = buffer.bytes[index]? := by
  have length := buffer.length_bytes
  have front : (buffer.bytes.take offset).length = offset := by
    rw [List.length_take]
    omega
  rw [copyIn_bytes fits]
  rcases apart with before | behind
  · rw [List.append_assoc, List.getElem?_append_left (by omega), List.getElem?_take_of_lt before]
  · rw [List.getElem?_append_right (by simp; omega), List.getElem?_drop]
    congr 1
    simp only [List.length_append, front]
    omega

/-- Whatever is copied to an empty buffer that it does not fill, there is a string in it. -/
theorem exists_holds_copyIn_zero (fits : text.length < size) :
    ∃ held, ((zero size).copyIn 0 text).Holds 0 held := by
  refine holds_of_nul (Nat.zero_le text.length) ?_
  rw [copyIn_bytes_other (by omega) (.inr (by omega))]
  exact List.getElem?_replicate_of_lt fits

theorem copyIn_nil (buffer : Buffer size) (offset : Nat) : buffer.copyIn offset [] = buffer := by
  apply Buffer.ext
  show (buffer.bytes.take offset ++ [] ++ buffer.bytes.drop (offset + 0)).take size = buffer.bytes
  rw [List.append_nil, Nat.add_zero, List.take_append_drop]
  exact List.take_of_length_le (Nat.le_of_eq buffer.length_bytes)

theorem copyIn_copyIn {first second : List UInt8}
    (fits : offset + first.length + second.length ≤ size) :
    (buffer.copyIn offset first).copyIn (offset + first.length) second =
      buffer.copyIn offset (first ++ second) := by
  have length := buffer.length_bytes
  have front : (buffer.bytes.take offset ++ first).length = offset + first.length := by
    rw [List.length_append, List.length_take]
    omega
  have whole : offset + (first ++ second).length = offset + first.length + second.length := by
    rw [List.length_append, Nat.add_assoc]
  apply Buffer.ext
  rw [copyIn_bytes fits, copyIn_bytes (by omega), copyIn_bytes (by omega), whole,
    List.take_left' front, List.drop_append, front, Nat.add_sub_cancel_left, List.drop_drop,
    List.drop_eq_nil_of_le (by omega), List.nil_append, List.append_assoc _ first]

theorem store_bytes_other {other : Nat} (apart : index ≠ other) (byte : UInt8) :
    (buffer.store index byte).bytes[other]? = buffer.bytes[other]? := by
  unfold store
  exact List.getElem?_set_ne apart

theorem store_bytes_self (inside : index < size) (byte : UInt8) :
    (buffer.store index byte).bytes[index]? = some byte := by
  unfold store
  exact List.getElem?_set_self (by rw [buffer.length_bytes]; exact inside)

end Buffer

end HPLinuxServer.Memory
