import Mathlib.Algebra.Group.Int.Defs
import Mathlib.Algebra.Group.Nat.Defs
import Mathlib.Data.Int.Order.Basic

/-!
# `int`

The machine type `int` has 32 bits. Its values are integers that fit (`FitsInt`); `wrapInt x` is the value with the low
32 bits of `x`. That is what a conversion to `int` gives, and what the target leaves where arithmetic overflows, which
C++ does not define.
-/

namespace RpiCam

/-- The values of `int`. -/
def FitsInt (x : Int) : Prop := -2 ^ 31 ≤ x ∧ x < 2 ^ 31

instance (x : Int) : Decidable (FitsInt x) := inferInstanceAs (Decidable (_ ∧ _))

/-- The `int` with the low 32 bits of `x`. -/
def wrapInt (x : Int) : Int := x.bmod (2 ^ 32)

theorem wrapInt_fits (x : Int) : FitsInt (wrapInt x) := by
  unfold wrapInt FitsInt
  have := Int.le_bmod (x := x) (m := 2 ^ 32) (by decide)
  have := Int.bmod_lt (x := x) (m := 2 ^ 32) (by decide)
  omega

theorem wrapInt_of_fits {x : Int} (h : FitsInt x) : wrapInt x = x := by
  unfold wrapInt
  unfold FitsInt at h
  rw [Int.bmod_eq_of_le] <;> omega

theorem exists_wrapInt (x : Int) : ∃ k, wrapInt x = x + 2 ^ 32 * k := by
  refine ⟨-((x - wrapInt x) / 2 ^ 32), ?_⟩
  have hdvd : (2 ^ 32 : Int) ∣ x - wrapInt x := Int.dvd_self_sub_bmod
  have := Int.mul_ediv_cancel' hdvd
  omega

theorem wrapInt_add (x y : Int) : wrapInt (wrapInt x + y) = wrapInt (x + y) := by
  unfold wrapInt
  exact Int.bmod_add_bmod

end RpiCam
