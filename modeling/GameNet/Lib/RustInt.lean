import Mathlib.Algebra.Group.Nat.Defs

/-!
# GameNet.Lib.RustInt

The checked and saturating additions of `u64` in the Rust standard library.
-/

namespace UInt64

/-- `u64::MAX` -/
def maxValue : UInt64 := UInt64.ofNat (2 ^ 64 - 1)

/-- `u64::saturating_add` -/
def saturatingAdd (a b : UInt64) : UInt64 :=
  UInt64.ofNat (min (a.toNat + b.toNat) (2 ^ 64 - 1))

/-- `u64::checked_add` -/
def checkedAdd (a b : UInt64) : Option UInt64 :=
  if a.toNat + b.toNat < 2 ^ 64 then some (a + b) else none

@[simp] theorem toNat_maxValue : maxValue.toNat = 2 ^ 64 - 1 := rfl

@[simp] theorem toNat_saturatingAdd (a b : UInt64) :
    (a.saturatingAdd b).toNat = min (a.toNat + b.toNat) (2 ^ 64 - 1) := by
  show min _ _ % 2 ^ 64 = _
  omega

theorem checkedAdd_eq_some {a b c : UInt64} (h : a.checkedAdd b = some c) :
    c.toNat = a.toNat + b.toNat := by
  simp only [checkedAdd] at h
  split at h
  · cases h
    rw [UInt64.toNat_add]; omega
  · cases h

theorem checkedAdd_one {a : UInt64} (h : a ≠ maxValue) : ∃ b, a.checkedAdd 1 = some b := by
  have hlt := a.toNat_lt
  have hne : a.toNat ≠ 2 ^ 64 - 1 := fun he => h (UInt64.toNat_inj.mp (he.trans toNat_maxValue.symm))
  have h1 : (1 : UInt64).toNat = 1 := rfl
  exact ⟨a + 1, if_pos (by omega)⟩

end UInt64
