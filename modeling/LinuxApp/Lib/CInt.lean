import Mathlib.Algebra.Ring.Int.Defs
import Mathlib.Algebra.Ring.Nat

/-!
# C integer arithmetic and errno values

`int` values are `Int`s; a result outside `[INT_MIN, INT_MAX]` is undefined
behaviour (`none`). `toUnsigned` is the conversion of an `int` operand to
`unsigned int` that C makes when the other operand is unsigned, `ofUnsigned` the
conversion back (modulo 2^32, as gcc does). On nonnegative operands both are the
identity, which is what `toUnsigned_of_nonneg` and `addMod` say.
-/

namespace LinuxApp.Lib

/-- The value fits a 32-bit `int`. -/
def InInt (x : Int) : Prop := -2 ^ 31 ≤ x ∧ x ≤ 2 ^ 31 - 1

instance (x : Int) : Decidable (InInt x) := inferInstanceAs (Decidable (_ ∧ _))

/-- Signed addition: overflow is undefined. -/
def addInt (x y : Int) : Option Int := if InInt (x + y) then some (x + y) else none

/-- The usual arithmetic conversion of an `int` to `unsigned int`. -/
def toUnsigned (x : Int) : Nat := (x % 2 ^ 32).toNat

/-- Conversion of an `unsigned int` (or a wider integer) to `int32_t`. -/
def ofUnsigned (n : Nat) : Int := Int.bmod n (2 ^ 32)

theorem addInt_eq {x y : Int} (h : InInt (x + y)) : addInt x y = some (x + y) := if_pos h

theorem toUnsigned_of_nonneg {x : Int} (h0 : 0 ≤ x) (h1 : x < 2 ^ 32) :
    (toUnsigned x : Int) = x := by
  unfold toUnsigned
  rw [Int.emod_eq_of_lt h0 h1, Int.toNat_of_nonneg h0]

theorem ofUnsigned_of_lt {n : Nat} (h : n < 2 ^ 31) : ofUnsigned n = n := by
  unfold ofUnsigned
  rw [Int.bmod_eq_of_le] <;> omega

/-- `(x + 1) % n` with an unsigned `n`: exact on small nonnegative operands. -/
theorem addMod {x : Int} {n : Nat} (h0 : 0 ≤ x) (hx : x < 2 ^ 31 - 1) (hn : n ≤ 2 ^ 31)
    (hpos : 0 < n) : ofUnsigned (toUnsigned (x + 1) % n) = (x + 1) % n := by
  have hu := toUnsigned_of_nonneg (x := x + 1) (by omega) (by omega)
  have hlt := Nat.mod_lt (toUnsigned (x + 1)) hpos
  rw [ofUnsigned_of_lt (by omega), Int.natCast_emod, hu]

/-! ## errno values (Linux, generic)

`EAGAIN`, which is also `EWOULDBLOCK`, `EINVAL`, `EIO`, `ENOSPC`, `ETIMEDOUT`. -/

def eagain : Int := 11
def einval : Int := 22
def eio : Int := 5
def enospc : Int := 28
def etimedout : Int := 110

end LinuxApp.Lib
