/-!
# GameNet.Lib.Semaphore

Counting semaphores whose permits are taken without waiting. `Holds permits held` says that `held`
of the semaphore's `permits` permits are out; a program that takes and returns permits keeps it
with `held` the permits its parts own.
-/

structure Semaphore where
  available : Nat
deriving DecidableEq

namespace Semaphore

def new (permits : Nat) : Semaphore := ⟨permits⟩

/-- Take a permit if there is one. -/
def tryAcquire (s : Semaphore) : Option Semaphore :=
  if s.available = 0 then none else some ⟨s.available - 1⟩

def release (s : Semaphore) (n : Nat) : Semaphore := ⟨s.available + n⟩

def Holds (s : Semaphore) (permits held : Nat) : Prop := s.available + held = permits

variable {s s' : Semaphore} {permits held n : Nat}

theorem holds_new (permits : Nat) : (new permits).Holds permits 0 := rfl

namespace Holds

theorem le (h : s.Holds permits held) : held ≤ permits := by
  unfold Holds at h
  omega

theorem acquired (h : s.Holds permits held) (ha : s.tryAcquire = some s') :
    s'.Holds permits (held + 1) := by
  unfold tryAcquire at ha
  unfold Holds at h ⊢
  split at ha
  · cases ha
  · cases ha
    show s.available - 1 + (held + 1) = permits
    omega

/-- Only a semaphore whose permits are all out refuses. -/
theorem refused_iff (h : s.Holds permits held) : s.tryAcquire = none ↔ held = permits := by
  unfold tryAcquire
  unfold Holds at h
  split
  · constructor
    · intro _; omega
    · intro _; rfl
  · constructor
    · intro he; cases he
    · intro he; omega

theorem released (h : s.Holds permits (held + n)) : (s.release n).Holds permits held := by
  unfold Holds at h ⊢
  show s.available + n + held = permits
  omega

end Holds

/-- A permit that is taken and returned leaves the semaphore as it was. -/
theorem release_acquired (ha : s.tryAcquire = some s') : s'.release 1 = s := by
  unfold tryAcquire at ha
  split at ha
  · cases ha
  · cases ha
    have hpos : s.available - 1 + 1 = s.available := by omega
    exact congrArg Semaphore.mk hpos

end Semaphore
