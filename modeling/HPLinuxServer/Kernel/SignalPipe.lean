import Mathlib.Data.List.Count
import HPLinuxServer.Kernel.EdgeTriggered

/-!
# Signals through a pipe

A process whose signal handler writes each signal into a pipe that its event loop
watches with EPOLLET. A signal that is pending already is not recorded again, and a
full pipe takes no more bytes.
-/

set_option autoImplicit false

namespace HPLinuxServer.Kernel

structure SignalPipe (σ : Type) where
  /-- what has been sent to the process and has not reached its handler -/
  pending : List σ
  pipe : Watch σ
  deriving DecidableEq, Repr

namespace SignalPipe

variable {σ : Type}

def empty : SignalPipe σ where
  pending := []
  pipe := .idle

def raise [DecidableEq σ] (inbox : SignalPipe σ) (signal : σ) : SignalPipe σ :=
  if signal ∈ inbox.pending then inbox
  else { inbox with pending := inbox.pending ++ [signal] }

/-- The handler runs and sends one byte, into a pipe of this capacity. -/
def deliver [DecidableEq σ] (capacity : Nat) (inbox : SignalPipe σ) (signal : σ) :
    SignalPipe σ where
  pending := inbox.pending.erase signal
  pipe :=
    if inbox.pipe.waiting.length < capacity then inbox.pipe.arrive [signal] else inbox.pipe

/-- The bytes that one `recv` takes at most. -/
def bufferSize : Nat := 1024

/-- The next signals of the pipe, as one `recv` returns them. -/
def received (inbox : SignalPipe σ) : List σ := inbox.pipe.waiting.take bufferSize

def report (inbox : SignalPipe σ) : SignalPipe σ := { inbox with pipe := inbox.pipe.report }

/-- The pipe behind one `recv`. -/
def receive (inbox : SignalPipe σ) : SignalPipe σ :=
  { inbox with pipe := inbox.pipe.handled bufferSize }

/-- The signal is on its way to the event loop. -/
def Holds (inbox : SignalPipe σ) (signal : σ) : Prop :=
  signal ∈ inbox.pending ∨ signal ∈ inbox.pipe.waiting

/-- What is in the pipe fits into it, and there is an event for it. -/
structure Sound (capacity : Nat) (inbox : SignalPipe σ) : Prop where
  fits : inbox.pipe.waiting.length ≤ capacity
  covered : inbox.pipe.Covered

variable {inbox : SignalPipe σ} {capacity : Nat} {signal other : σ}

theorem sound_empty : Sound capacity (empty : SignalPipe σ) where
  fits := Nat.zero_le _
  covered := fun waiting => absurd rfl waiting

/-- What leaves the pipe has been received. -/
theorem Holds.receive (held : inbox.Holds other) :
    inbox.receive.Holds other ∨ other ∈ inbox.received := by
  rcases held with pending | waiting
  · exact .inl (.inl pending)
  · rw [← List.take_append_drop bufferSize inbox.pipe.waiting] at waiting
    exact (List.mem_append.mp waiting).symm.imp_left .inr

theorem Holds.of_receive (held : inbox.receive.Holds other) : inbox.Holds other :=
  held.imp_right List.mem_of_mem_drop

theorem Sound.report (sound : Sound capacity inbox) : Sound capacity inbox.report where
  fits := sound.fits
  covered := Watch.covered_report

/-- A pipe of this size is emptied by one `recv`. -/
theorem Sound.receive (sound : Sound capacity inbox) (small : capacity ≤ bufferSize) :
    Sound capacity inbox.receive where
  fits := by
    unfold SignalPipe.receive Watch.handled
    rw [List.length_drop]
    have fits := sound.fits
    omega
  covered := Watch.covered_handled_iff.mpr (.inl (Nat.le_trans sound.fits small))

variable [DecidableEq σ]

theorem holds_raise : (inbox.raise signal).Holds signal := by
  unfold raise
  split
  · next known => exact .inl known
  · exact .inl (List.mem_append_right _ List.mem_cons_self)

theorem Holds.raise (held : inbox.Holds other) (signal : σ) :
    (inbox.raise signal).Holds other := by
  unfold SignalPipe.raise
  split
  · exact held
  · exact held.imp_left (List.mem_append_left _)

theorem holds_raise_iff :
    (inbox.raise signal).Holds other ↔ inbox.Holds other ∨ other = signal := by
  constructor
  · intro held
    unfold SignalPipe.raise at held
    split at held
    · exact .inl held
    · rcases held with pending | waiting
      · rcases List.mem_append.mp pending with before | new
        · exact .inl (.inl before)
        · exact .inr (List.mem_singleton.mp new)
      · exact .inl (.inr waiting)
  · rintro (held | rfl)
    · exact held.raise signal
    · exact holds_raise

theorem raise_pipe : (inbox.raise signal).pipe = inbox.pipe := by
  unfold raise
  split
  · rfl
  · rfl

/-- With room in the pipe no signal is lost. -/
theorem Holds.deliver (held : inbox.Holds other) (room : inbox.pipe.waiting.length < capacity)
    (signal : σ) : (deliver capacity inbox signal).Holds other := by
  unfold SignalPipe.deliver Holds
  rw [if_pos room]
  rcases held with pending | waiting
  · rcases Decidable.em (other = signal) with rfl | apart
    · exact .inr (List.mem_append_right _ List.mem_cons_self)
    · exact .inl ((List.mem_erase_of_ne apart).mpr pending)
  · exact .inr (List.mem_append_left _ waiting)

theorem Holds.of_deliver (pending : signal ∈ inbox.pending)
    (held : (SignalPipe.deliver capacity inbox signal).Holds other) : inbox.Holds other := by
  unfold SignalPipe.deliver Holds at held
  rcases held with kept | waiting
  · exact .inl (List.mem_of_mem_erase kept)
  · dsimp only at waiting
    split at waiting
    · rcases List.mem_append.mp waiting with before | new
      · exact .inr before
      · exact .inl (List.mem_singleton.mp new ▸ pending)
    · exact .inr waiting

namespace Sound

theorem raise (sound : Sound capacity inbox) (signal : σ) :
    Sound capacity (inbox.raise signal) where
  fits := by rw [raise_pipe]; exact sound.fits
  covered := by rw [raise_pipe]; exact sound.covered

theorem deliver (sound : Sound capacity inbox) (signal : σ) :
    Sound capacity (deliver capacity inbox signal) := by
  rcases Nat.lt_or_ge inbox.pipe.waiting.length capacity with room | full
  · constructor
    · unfold SignalPipe.deliver Watch.arrive
      rw [if_pos room]
      simp only [List.length_append, List.length_singleton]
      omega
    · unfold SignalPipe.deliver
      rw [if_pos room]
      exact Watch.covered_arrive _
  · unfold SignalPipe.deliver
    rw [if_neg (Nat.not_lt.mpr full)]
    exact ⟨sound.fits, sound.covered⟩

end Sound

/-! ## How often a signal is on its way -/

def count (inbox : SignalPipe σ) (signal : σ) : Nat :=
  inbox.pending.count signal + inbox.pipe.waiting.count signal

theorem count_raise (fresh : signal ∉ inbox.pending) :
    (inbox.raise signal).count signal = inbox.count signal + 1 := by
  unfold raise count
  rw [if_neg fresh, List.count_append, List.count_singleton_self]
  dsimp only
  omega

theorem count_raise_of_ne (apart : signal ≠ other) :
    (inbox.raise signal).count other = inbox.count other := by
  unfold raise count
  split
  · rfl
  · rw [List.count_append, List.count_singleton, if_neg (by simpa using apart), Nat.add_zero]

theorem count_deliver (pending : signal ∈ inbox.pending)
    (room : inbox.pipe.waiting.length < capacity) :
    (deliver capacity inbox signal).count other = inbox.count other := by
  unfold deliver count Watch.arrive
  rw [if_pos room]
  dsimp only
  rw [List.count_append, List.count_erase, List.count_singleton]
  split
  · next same =>
      rw [beq_iff_eq] at same
      have positive := List.count_pos_iff.mpr (same ▸ pending)
      omega
  · omega

theorem count_receive (inbox : SignalPipe σ) (signal : σ) :
    inbox.received.count signal + inbox.receive.count signal = inbox.count signal := by
  unfold received receive count Watch.handled
  dsimp only
  have split := List.take_append_drop bufferSize inbox.pipe.waiting
  have whole := congrArg (List.count signal) split
  rw [List.count_append] at whole
  omega

end SignalPipe

end HPLinuxServer.Kernel
