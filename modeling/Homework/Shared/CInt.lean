import Mathlib.Algebra.Group.Int.Defs
import Mathlib.Algebra.Group.Nat.Defs

/-!
# The C type `int`

32 bits, with sums that wrap around. GLib's `gint` is the same type.
-/

namespace Homework

set_option autoImplicit false

def InInt (x : Int) : Prop := -2 ^ 31 ≤ x ∧ x < 2 ^ 31

instance (x : Int) : Decidable (InInt x) := inferInstanceAs (Decidable (_ ∧ _))

def intMax : Int := 2 ^ 31 - 1

def intAdd (a b : Int) : Int := (a + b).bmod (2 ^ 32)

/-- A wider integer that is converted to `int`. -/
def intOf (x : Int) : Int := x.bmod (2 ^ 32)

theorem intOf_eq {x : Int} (h : InInt x) : intOf x = x := by
  obtain ⟨hlo, hhi⟩ := h
  exact Int.bmod_eq_of_le (by omega) (by omega)

theorem intOf_natCast_le (n : Nat) : intOf n ≤ n := by
  have hself := Int.emod_add_mul_ediv (n : Int) (2 ^ 32)
  have hdiv : 0 ≤ (n : Int) / 2 ^ 32 := Int.ediv_nonneg (by omega) (by decide)
  unfold intOf
  rw [Int.bmod_def]
  split <;> omega

theorem intAdd_eq {a b : Int} (h : InInt (a + b)) : intAdd a b = a + b := by
  obtain ⟨hlo, hhi⟩ := h
  exact Int.bmod_eq_of_le (by omega) (by omega)

theorem inInt_of_le {x : Int} (h₀ : 0 ≤ x) (h : x ≤ intMax) : InInt x := by
  unfold intMax at h
  exact ⟨by omega, by omega⟩

end Homework
