import Mathlib.Data.List.Basic

/-!
# A counting semaphore with deferred grants

`ByteSemaphore` has a capacity, waits in FIFO order and leaves it to a woken waiter
to take its units itself: `release` only adds units and wakes all waiters at the
head that find enough of them. With a single party that acquires, `release_nil` and
`release_singleton` are all that a release can do.
-/

namespace S3Archive

structure ByteSemaphore where
  capacity : Nat
  available : Int
  /-- What the waiters need. -/
  waiters : List Nat := []
  /-- What the waiters need that were woken and have not gone on. -/
  woken : List Nat := []
  deriving DecidableEq

namespace ByteSemaphore

def new (capacity : Nat) : ByteSemaphore := { capacity, available := capacity }

/-- A request is capped at the capacity. -/
def needed (b : ByteSemaphore) (amount : Nat) : Nat := min amount b.capacity

def take (b : ByteSemaphore) (needed : Nat) : ByteSemaphore :=
  { b with available := b.available - needed }

def wait (b : ByteSemaphore) (needed : Nat) : ByteSemaphore :=
  { b with waiters := b.waiters ++ [needed] }

/-- The loop over the waiters does not lower `available`: a woken waiter does that itself. -/
def release (b : ByteSemaphore) (amount : Nat) : ByteSemaphore :=
  let available := b.available + b.needed amount
  { b with
    available
    waiters := b.waiters.dropWhile fun n : Nat => (n : Int) ≤ available
    woken := b.woken ++ b.waiters.takeWhile fun n : Nat => (n : Int) ≤ available }

theorem release_nil {b : ByteSemaphore} (hwaiters : b.waiters = []) (amount : Nat) :
    (b.release amount).waiters = [] ∧ (b.release amount).woken = b.woken := by
  simp [release, hwaiters]

/-- A release wakes the waiter if there are enough units for it now. -/
theorem release_singleton {b : ByteSemaphore} {n : Nat} (hwaiters : b.waiters = [n])
    (hwoken : b.woken = []) (amount : Nat) :
    (b.release amount).waiters = [n] ∧ (b.release amount).woken = [] ∧
        (b.release amount).available < n ∨
      (b.release amount).waiters = [] ∧ (b.release amount).woken = [n] := by
  by_cases hn : (n : Int) ≤ b.available + b.needed amount
  · right
    simp [release, hwaiters, hwoken, hn]
  · left
    simp only [release, hwaiters, hwoken, List.dropWhile_cons, List.takeWhile_cons, hn]
    simp
    omega

/-! ## One party that acquires -/

/-- What the only party that acquires is doing: nothing, or waiting for an amount. -/
def Serves (b : ByteSemaphore) : Option Nat → Prop
  | none => b.waiters = [] ∧ b.woken = []
  | some n => b.waiters = [b.needed n] ∧ b.woken = [] ∧ b.available < b.needed n ∨
      b.waiters = [] ∧ b.woken = [b.needed n]

/-- A release leaves the party where it is, perhaps woken. -/
theorem Serves.release {b : ByteSemaphore} {request : Option Nat} (h : b.Serves request)
    (amount : Nat) : (b.release amount).Serves request := by
  cases request with
  | none =>
    obtain ⟨hwaiters, hwoken⟩ := h
    have hrelease := release_nil hwaiters amount
    rw [hwoken] at hrelease
    exact hrelease
  | some n =>
    rcases h with ⟨hwaiters, hwoken, -⟩ | ⟨hwaiters, hwoken⟩
    · exact release_singleton hwaiters hwoken amount
    · right
      have hrelease := release_nil hwaiters amount
      rw [hwoken] at hrelease
      exact hrelease

theorem Serves.wait {b : ByteSemaphore} {n : Nat} (h : b.Serves none)
    (hfull : b.available < b.needed n) : (b.wait (b.needed n)).Serves (some n) := by
  obtain ⟨hwaiters, hwoken⟩ := h
  left
  simp only [ByteSemaphore.wait, needed, hwaiters, hwoken, List.nil_append, true_and]
  exact hfull

end ByteSemaphore

end S3Archive
