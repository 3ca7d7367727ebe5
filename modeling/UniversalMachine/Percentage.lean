/-!
# Percentages

A share is computed in double precision and shown with one digit after the point. The
digit comes from the exact value of the double, a half going to the even neighbour.
-/

namespace UniversalMachine

namespace Percentage

/-- The nearest natural number to a quotient, the even one of two equally near. -/
def roundDiv (num den : Nat) : Nat :=
  let below := num / den
  let rest := num % den
  if 2 * rest < den ∨ (2 * rest = den ∧ below % 2 = 0) then below else below + 1

/-- The magnitude of a finite double as a mantissa and a power of two. -/
def dyadic (x : Float) : Nat × Int :=
  let bits := x.toBits.toNat
  let exponent : Nat := (bits >>> 52) % (1 <<< 11)
  let fraction : Nat := bits % (1 <<< 52)
  if exponent = 0 then (fraction, -1074)
  else ((1 <<< 52) + fraction, (exponent : Int) - 1075)

/-- The magnitude of a finite double in tenths, to the nearest. -/
def tenths (x : Float) : Nat :=
  let (mantissa, exponent) := dyadic x
  roundDiv ((10 * mantissa) <<< exponent.toNat) (1 <<< (-exponent).toNat)

/-- How many in a hundred of the whole the part makes. -/
def share (part whole : Nat) : Float :=
  100.0 * part.toFloat / whole.toFloat

/-- A share with one digit after the point. -/
def text (part whole : Nat) : String :=
  let amount := tenths (share part whole)
  toString (amount / 10) ++ "." ++ toString (amount % 10)

end Percentage

end UniversalMachine
