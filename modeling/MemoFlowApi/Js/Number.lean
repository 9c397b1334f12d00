import Mathlib.Algebra.Order.Floor.Defs
import Mathlib.Data.Rat.Floor

/-!
# Numbers

The values of type `number`, with exact rationals for the finite ones, and the functions of `Math` on
them.
-/

namespace MemoFlowApi.Js

inductive Number where
  | nan
  | negInfinity
  | finite (value : ℚ)
  | infinity
  deriving DecidableEq

namespace Number

instance : NatCast Number := ⟨fun n ↦ finite n⟩

/-- `Math.trunc`: round towards zero. -/
def trunc : Number → Number
  | finite value => finite (if value < 0 then ⌈value⌉ else ⌊value⌋ : ℤ)
  | other => other

/-- `Math.max`. -/
def max : Number → Number → Number
  | nan, _ => nan
  | _, nan => nan
  | infinity, _ => infinity
  | _, infinity => infinity
  | negInfinity, b => b
  | a, negInfinity => a
  | finite a, finite b => finite (Max.max a b)

/-- `Math.min`. -/
def min : Number → Number → Number
  | nan, _ => nan
  | _, nan => nan
  | negInfinity, _ => negInfinity
  | _, negInfinity => negInfinity
  | infinity, b => b
  | a, infinity => a
  | finite a, finite b => finite (Min.min a b)

/-- Subtraction. -/
def sub : Number → Number → Number
  | nan, _ => nan
  | _, nan => nan
  | infinity, infinity => nan
  | negInfinity, negInfinity => nan
  | infinity, _ => infinity
  | negInfinity, _ => negInfinity
  | _, infinity => negInfinity
  | _, negInfinity => infinity
  | finite a, finite b => finite (a - b)

/-- Half of a number. -/
def half : Number → Number
  | finite value => finite (value / 2)
  | other => other

/-- `Math.floor`. -/
def floor : Number → Number
  | finite value => finite (⌊value⌋ : ℤ)
  | other => other

/-- `a < b`. -/
def lt : Number → Number → Bool
  | nan, _ => false
  | _, nan => false
  | _, negInfinity => false
  | negInfinity, _ => true
  | infinity, _ => false
  | _, infinity => true
  | finite a, finite b => a < b

/-- `a <= b`. -/
def le : Number → Number → Bool
  | nan, _ => false
  | _, nan => false
  | negInfinity, _ => true
  | _, infinity => true
  | _, negInfinity => false
  | infinity, _ => false
  | finite a, finite b => a ≤ b

/-- The integer that a number is. -/
def toInt? : Number → Option ℤ
  | finite value => if value.den = 1 then some value.num else none
  | _ => none

@[simp]
theorem toInt?_intCast (n : ℤ) : (finite n).toInt? = some n := by
  change (if (n : ℚ).den = 1 then some (n : ℚ).num else none) = some n
  rw [Rat.den_intCast, if_pos rfl, Rat.num_intCast]

theorem trunc_finite (value : ℚ) : ∃ n : ℤ, (finite value).trunc = finite n := ⟨_, rfl⟩

/-- A truncated number between two integers is an integer between them, unless it is no number. -/
theorem min_max_trunc {x : Number} {low high : ℤ} (h : low ≤ high) (hx : x ≠ nan) :
    ∃ n : ℤ, (x.trunc.max (finite low)).min (finite high) = finite n ∧ low ≤ n ∧ n ≤ high := by
  cases x with
  | nan => exact (hx rfl).elim
  | negInfinity => exact ⟨low, congrArg finite (min_eq_left (Int.cast_le.mpr h)), le_rfl, h⟩
  | infinity => exact ⟨high, rfl, h, le_rfl⟩
  | finite value =>
    obtain ⟨n, hn⟩ := trunc_finite value
    refine ⟨Min.min (Max.max n low) high, ?_, le_min (le_max_right _ _) h, min_le_right _ _⟩
    rw [hn, Int.cast_min, Int.cast_max]
    rfl

end Number

end MemoFlowApi.Js
