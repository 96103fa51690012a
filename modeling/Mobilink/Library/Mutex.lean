import Mathlib.Data.Option.Basic

/-! A lock that remembers whether a holder panicked, as `std::sync::Mutex` does. -/

/-- The protected value, and whether the lock is poisoned. -/
structure Mutex (α : Type*) where
  value : α
  poisoned : Bool
  deriving DecidableEq

namespace Mutex

variable {α : Type*}

def new (a : α) : Mutex α := ⟨a, false⟩

/-- `none` is the poison error. -/
def lock (m : Mutex α) : Option α := if m.poisoned then none else some m.value

/-- Write through a guard that is held. -/
def store (m : Mutex α) (a : α) : Mutex α := { m with value := a }

@[simp] theorem value_new (a : α) : (new a).value = a := rfl
@[simp] theorem poisoned_new (a : α) : (new a).poisoned = false := rfl
@[simp] theorem value_store (m : Mutex α) (a : α) : (m.store a).value = a := rfl
@[simp] theorem poisoned_store (m : Mutex α) (a : α) : (m.store a).poisoned = m.poisoned := rfl

theorem lock_eq_some {m : Mutex α} (h : m.poisoned = false) : m.lock = some m.value := by
  simp [lock, h]

theorem value_of_lock {m : Mutex α} {a : α} (h : m.lock = some a) : m.value = a := by
  unfold lock at h
  split at h
  · exact absurd h (by simp)
  · exact Option.some.inj h

end Mutex
