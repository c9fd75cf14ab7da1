import Mathlib.Data.Int.Notation

/-!
# Values of type `int`

An operation on `int` whose result has more than 32 bits overflows. `intResult` is for programs of
which nothing is said from there on, and `wrap` for those whose run goes on with the low 32 bits, as
on the machines in question. On results in the range of `int` both are the result.
-/

namespace Coursework.Numbers

/-- A value of type `int`, if it is one. -/
def intResult (n : Int) : Option Int :=
  if -2147483648 ≤ n ∧ n ≤ 2147483647 then some n else none

theorem intResult_eq_some {n m : Int} :
    intResult n = some m ↔ n = m ∧ -2147483648 ≤ n ∧ n ≤ 2147483647 := by
  unfold intResult
  split
  case isTrue h =>
    rw [Option.some.injEq]
    exact ⟨fun heq => ⟨heq, h⟩, And.left⟩
  case isFalse h => exact ⟨fun heq => (by cases heq), fun heq => absurd heq.2 h⟩

theorem intResult_natCast {n : Nat} (h : n ≤ 2147483647) : intResult n = some (n : Int) :=
  if_pos (by omega)

/-- The low 32 bits of a number, as a value of type `int`. -/
def wrap (n : Int) : Int :=
  n.bmod 4294967296

theorem wrap_of_range {n : Int} (hlow : -2147483648 ≤ n) (hhigh : n ≤ 2147483647) :
    wrap n = n :=
  Int.bmod_eq_of_le hlow (by omega)

end Coursework.Numbers
