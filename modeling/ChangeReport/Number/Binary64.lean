/-! Finite doubles as exact values: a sign and `mantissa * 2 ^ exponent`. All arithmetic
is on natural numbers with one rounding at the end, to the nearest double and at a tie to
the even mantissa; a result too large for a double is `none`. -/
namespace ChangeReport

/-- A finite double. Built by `ofFraction`, it has either `2 ^ 52 ≤ mantissa < 2 ^ 53` or
the least exponent and a smaller mantissa. -/
structure Binary64 where
  negative : Bool
  mantissa : Nat
  exponent : Int
deriving DecidableEq, Repr

namespace Binary64

def leastExponent : Int := -1074

def greatestExponent : Int := 971

def zero (negative : Bool) : Binary64 := ⟨negative, 0, leastExponent⟩

def isZero (x : Binary64) : Bool := x.mantissa == 0

/-- The nearest natural number to a fraction, the even one at a tie. -/
def roundDiv (num den : Nat) : Nat :=
  let q := num / den
  let r := num % den
  if 2 * r < den then q
  else if den < 2 * r then q + 1
  else if q % 2 = 0 then q else q + 1

/-- `num / den` divided by `2 ^ e`, as a fraction. -/
def scaleDown (num den : Nat) (e : Int) : Nat × Nat :=
  if 0 ≤ e then (num, den * Nat.pow 2 e.toNat) else (num * Nat.pow 2 (-e).toNat, den)

/-- The exponent that gives a nonzero fraction a mantissa of 53 bits, if the range allows
it. -/
def exponentOf (num den : Nat) : Int :=
  let guess : Int := (Nat.log2 num : Int) - (Nat.log2 den : Int) - 52
  let scaled := scaleDown num den guess
  let exact := if scaled.1 < Nat.pow 2 52 * scaled.2 then guess - 1 else guess
  max exact leastExponent

/-- The nearest double to a fraction with a positive denominator. -/
def ofFraction (negative : Bool) (num den : Nat) : Option Binary64 :=
  if num = 0 then some (zero negative)
  else
    let e := exponentOf num den
    let scaled := scaleDown num den e
    let m := roundDiv scaled.1 scaled.2
    let carried := m == Nat.pow 2 53
    let m' := if carried then Nat.pow 2 52 else m
    let e' := if carried then e + 1 else e
    if greatestExponent < e' then none else some ⟨negative, m', e'⟩

def toFraction (x : Binary64) : Nat × Nat :=
  if 0 ≤ x.exponent then (x.mantissa * Nat.pow 2 x.exponent.toNat, 1)
  else (x.mantissa, Nat.pow 2 (-x.exponent).toNat)

/-- The nearest double to `digits * 10 ^ scale`. Far outside the range no power is
computed. -/
def ofDecimal (negative : Bool) (digits : Nat) (scale : Int) : Option Binary64 :=
  if digits = 0 then some (zero negative)
  else
    let magnitude : Int := scale + (Nat.log2 digits / 3 : Nat)
    if scale > 400 then none
    else if magnitude < -400 then some (zero negative)
    else if 0 ≤ scale then ofFraction negative (digits * Nat.pow 10 scale.toNat) 1
    else ofFraction negative digits (Nat.pow 10 (-scale).toNat)

def mul (x y : Binary64) : Option Binary64 :=
  let a := x.toFraction
  let b := y.toFraction
  ofFraction (x.negative != y.negative) (a.1 * b.1) (a.2 * b.2)

def div (x y : Binary64) : Option Binary64 :=
  let a := x.toFraction
  let b := y.toFraction
  ofFraction (x.negative != y.negative) (a.1 * b.2) (a.2 * b.1)

/-- Equal as numbers: the two zeros are. -/
def same (x y : Binary64) : Bool :=
  (x.isZero && y.isZero) || decide (x = y)

theorem same_self (x : Binary64) : x.same x = true := by simp [same]

theorem same_comm (x y : Binary64) : x.same y = y.same x := by
  simp only [same, Bool.and_comm, eq_comm]

theorem same_trans {x y z : Binary64} (hxy : x.same y = true) (hyz : y.same z = true) :
    x.same z = true := by
  simp only [same, Bool.or_eq_true, Bool.and_eq_true, decide_eq_true_eq] at hxy hyz ⊢
  rcases hxy with ⟨hx, hy⟩ | rfl
  · rcases hyz with ⟨-, hz⟩ | rfl
    · exact .inl ⟨hx, hz⟩
    · exact .inl ⟨hx, hy⟩
  · exact hyz

end Binary64
end ChangeReport
