/-!
# Double-precision numbers

A double is kept as its sixty-four bits, so that every one of them, the many NaNs included, travels
unchanged. Comparison and conversion from whole numbers work on the bits.
-/

namespace QueryClient

/-- A double-precision number: sign, eleven bits of exponent, fifty-two bits of fraction. -/
structure Double where
  bits : UInt64
deriving DecidableEq, Repr

namespace Double

/-- The number without its sign. -/
def magnitude (x : Double) : Nat :=
  x.bits.toNat % 0x8000000000000000

/-- Whether the double is no number: all bits of the exponent set, and some of the fraction. -/
def isNaN (x : Double) : Bool :=
  0x7FF0000000000000 < x.magnitude

/-- Equality of numbers: a NaN equals nothing, and the two zeros are one number. -/
def same (x y : Double) : Bool :=
  !x.isNaN && !y.isNaN && (x.bits == y.bits || (x.magnitude == 0 && y.magnitude == 0))

/-- `n / 2 ^ shift` to the nearest whole number, a tie to the even one. -/
def roundShift (n shift : Nat) : Nat :=
  let unit := 1 <<< shift
  let whole := n / unit
  let twice := 2 * (n % unit)
  if twice < unit || (twice == unit && whole % 2 == 0) then whole else whole + 1

/-- The bits of the nearest double to a natural number below `2 ^ 1023`. A fraction that rounds up
to a power of two carries into the exponent. -/
def bitsOfNat (n : Nat) : Nat :=
  if n = 0 then 0
  else
    let top := Nat.log2 n
    let fraction := if top ≤ 52 then n <<< (52 - top) else roundShift n (top - 52)
    ((top + 1023) <<< 52) + (fraction - 1 <<< 52)

/-- The nearest double to a whole number. -/
def ofInt (n : Int) : Double :=
  if n < 0 then ⟨UInt64.ofNat (0x8000000000000000 + bitsOfNat n.natAbs)⟩
  else ⟨UInt64.ofNat (bitsOfNat n.natAbs)⟩

end Double

end QueryClient
