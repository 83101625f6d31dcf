import Mathlib.Logic.Basic

/-!
# Descriptor tables

The open descriptors of one process, each with what it stands for. A call that opens a
descriptor takes the least one that is free; a process that forks hands on a copy.
-/

set_option autoImplicit false

namespace HPLinuxServer.Kernel

structure FileTable (δ : Type) where
  entries : List (Option δ)
  deriving DecidableEq, Repr

namespace FileTable

variable {δ : Type}

def lookup (table : FileTable δ) (fd : Nat) : Option δ := table.entries[fd]?.join

/-- The least descriptor that is not open. -/
def free (table : FileTable δ) : Nat := table.entries.findIdx Option.isNone

/-- A new descriptor. -/
def install (table : FileTable δ) (description : δ) : Nat × FileTable δ :=
  (table.free,
    ⟨table.entries.take table.free ++ some description :: table.entries.drop (table.free + 1)⟩)

def close (table : FileTable δ) (fd : Nat) : FileTable δ := ⟨table.entries.set fd none⟩

/-- What the descriptors stand for, told apart from other things. -/
def map {ε : Type} (tell : δ → ε) (table : FileTable δ) : FileTable ε :=
  ⟨table.entries.map (Option.map tell)⟩

/-- The process has it open. -/
def Holds (table : FileTable δ) (description : δ) : Prop :=
  ∃ fd, table.lookup fd = some description

variable (table : FileTable δ)

theorem lookup_free : table.lookup table.free = none := by
  unfold lookup
  cases entry : table.entries[table.free]? with
  | none => rfl
  | some slot =>
      obtain ⟨inside, found⟩ := List.getElem?_eq_some_iff.mp entry
      have isNone : slot.isNone = true := by
        rw [← found]
        exact List.findIdx_getElem
      rw [Option.isNone_iff_eq_none.mp isNone]
      rfl

theorem lookup_install (description : δ) (fd : Nat) :
    (table.install description).2.lookup fd =
      if fd = (table.install description).1 then some description else table.lookup fd := by
  have place : table.free ≤ table.entries.length := List.findIdx_le_length
  have length : (table.entries.take table.free).length = table.free := List.length_take_of_le place
  unfold install lookup
  dsimp only
  rcases Nat.lt_trichotomy fd table.free with before | rfl | behind
  · rw [if_neg (Nat.ne_of_lt before), List.getElem?_append_left (by rw [length]; exact before),
      List.getElem?_take_of_lt before]
  · rw [if_pos rfl, List.getElem?_append_right (Nat.le_of_eq length), length, Nat.sub_self]
    rfl
  · obtain ⟨more, rfl⟩ : ∃ more, fd = table.free + 1 + more := ⟨fd - table.free - 1, by omega⟩
    have apart : table.free + 1 + more - table.free = more + 1 := by omega
    rw [if_neg (by omega), List.getElem?_append_right (by omega), length, apart,
      List.getElem?_cons_succ, List.getElem?_drop]

theorem lookup_install_free (description : δ) : table.lookup (table.install description).1 = none :=
  table.lookup_free

theorem lookup_close (fd other : Nat) :
    (table.close fd).lookup other = if other = fd then none else table.lookup other := by
  unfold close lookup
  rw [List.getElem?_set]
  rcases Decidable.em (other = fd) with rfl | apart
  · rw [if_pos rfl, if_pos rfl]
    split <;> rfl
  · rw [if_neg (Ne.symm apart), if_neg apart]

theorem lookup_map {ε : Type} (tell : δ → ε) (fd : Nat) :
    (table.map tell).lookup fd = (table.lookup fd).map tell := by
  unfold map lookup
  rw [List.getElem?_map]
  cases table.entries[fd]? with
  | none => rfl
  | some slot => rfl

end FileTable

end HPLinuxServer.Kernel
