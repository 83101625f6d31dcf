import Mathlib.Data.Int.Order.Basic

/-!
# Descriptors of a process

Which descriptors are open, which of them an epoll instance watches and with
what registration `ρ`, and every call of `close` so far with whether there was
anything to close. The kernel forgets a registration when its descriptor is
closed.
-/

set_option autoImplicit false

namespace HPLinuxServer.Kernel

abbrev Fd := Int

structure Descriptors (ρ : Type) where
  isOpen : Fd → Bool
  epoll : Fd → Option ρ
  closes : List (Fd × Bool)

namespace Descriptors

variable {ρ : Type}

/-- A system call such as `accept` has returned `fd`. -/
def opened (descriptors : Descriptors ρ) (fd : Fd) : Descriptors ρ :=
  { descriptors with isOpen := fun other => decide (other = fd) || descriptors.isOpen other }

/-- `epoll_ctl(epollfd, EPOLL_CTL_ADD, fd, &event)` -/
def epollAdd (descriptors : Descriptors ρ) (fd : Fd) (event : ρ) : Descriptors ρ :=
  { descriptors with
    epoll := fun other => if other = fd then some event else descriptors.epoll other }

/-- `epoll_ctl(epollfd, EPOLL_CTL_DEL, fd, 0)` -/
def epollDel (descriptors : Descriptors ρ) (fd : Fd) : Descriptors ρ :=
  { descriptors with epoll := fun other => if other = fd then none else descriptors.epoll other }

/-- `close(fd)`, which does nothing for a descriptor that is not open. -/
def close (descriptors : Descriptors ρ) (fd : Fd) : Descriptors ρ :=
  { isOpen := fun other => decide (other ≠ fd) && descriptors.isOpen other
    epoll := fun other =>
      if other = fd ∧ descriptors.isOpen fd then none else descriptors.epoll other
    closes := descriptors.closes ++ [(fd, descriptors.isOpen fd)] }

/-- No call of `close` was for a descriptor that was not open. -/
def ClosedOnce (descriptors : Descriptors ρ) : Prop := ∀ call ∈ descriptors.closes, call.2 = true

variable {descriptors : Descriptors ρ}

@[simp] theorem isOpen_opened (fd other : Fd) :
    (descriptors.opened fd).isOpen other = true ↔ other = fd ∨ descriptors.isOpen other = true := by
  simp [opened]

@[simp] theorem epoll_opened (fd : Fd) : (descriptors.opened fd).epoll = descriptors.epoll := rfl

@[simp] theorem closes_opened (fd : Fd) : (descriptors.opened fd).closes = descriptors.closes := rfl

@[simp] theorem isOpen_epollAdd (fd : Fd) (event : ρ) :
    (descriptors.epollAdd fd event).isOpen = descriptors.isOpen := rfl

@[simp] theorem epoll_epollAdd (fd other : Fd) (event : ρ) :
    (descriptors.epollAdd fd event).epoll other =
      if other = fd then some event else descriptors.epoll other := rfl

@[simp] theorem closes_epollAdd (fd : Fd) (event : ρ) :
    (descriptors.epollAdd fd event).closes = descriptors.closes := rfl

@[simp] theorem isOpen_epollDel (fd : Fd) :
    (descriptors.epollDel fd).isOpen = descriptors.isOpen := rfl

@[simp] theorem epoll_epollDel (fd other : Fd) :
    (descriptors.epollDel fd).epoll other =
      if other = fd then none else descriptors.epoll other := rfl

@[simp] theorem closes_epollDel (fd : Fd) :
    (descriptors.epollDel fd).closes = descriptors.closes := rfl

@[simp] theorem isOpen_close (fd other : Fd) :
    (descriptors.close fd).isOpen other = true ↔ other ≠ fd ∧ descriptors.isOpen other = true := by
  simp [close]

theorem epoll_close {fd : Fd} (isOpen : descriptors.isOpen fd = true) (other : Fd) :
    (descriptors.close fd).epoll other = if other = fd then none else descriptors.epoll other := by
  simp [close, isOpen]

/-- Closing a descriptor that is not open only leaves its trace. -/
theorem close_closed {fd : Fd} (isClosed : descriptors.isOpen fd = false) :
    descriptors.close fd = { descriptors with closes := descriptors.closes ++ [(fd, false)] } := by
  have isOpen : (fun other => decide (other ≠ fd) && descriptors.isOpen other) =
      descriptors.isOpen := by
    funext other
    by_cases same : other = fd
    · subst same
      rw [isClosed, Bool.and_false]
    · rw [decide_eq_true same, Bool.true_and]
  unfold close
  rw [isOpen, isClosed]
  simp

theorem ClosedOnce.close (once : descriptors.ClosedOnce) {fd : Fd}
    (isOpen : descriptors.isOpen fd = true) : (descriptors.close fd).ClosedOnce := by
  intro call member
  rcases List.mem_append.mp member with member | member
  · exact once call member
  · obtain rfl : call = (fd, descriptors.isOpen fd) := by simpa using member
    exact isOpen

end Descriptors

end HPLinuxServer.Kernel
