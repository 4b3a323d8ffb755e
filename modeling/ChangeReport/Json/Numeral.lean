import ChangeReport.Document

/-! The value of a JSON numeral. An integer keeps its value within 64 bits. Any other
numeral is a float: the leading digits that fit in 64 bits, times a power of ten, with one
rounding for the digits and one for each scaling. -/
namespace ChangeReport.Json

/-- The parts of a numeral as written; `fraction` and `exponent` are absent when their
mark is. -/
structure Numeral where
  negative : Bool
  whole : List Nat
  fraction : Option (List Nat)
  exponent : Option (Bool × List Nat)
deriving Repr

def wordLimit : Nat := Nat.pow 2 64

/-- Appends digits while the result stays below `wordLimit`: the result, and how many were
appended. -/
def appendDigits (n : Nat) : List Nat → Nat × Nat
  | [] => (n, 0)
  | d :: ds =>
      if n * 10 + d < wordLimit then
        let r := appendDigits (n * 10 + d) ds
        (r.1, r.2 + 1)
      else (n, 0)

def powerOfTen (k : Nat) : Option Binary64 := Binary64.ofFraction false (Nat.pow 10 k) 1

/-- Scales by `10 ^ e`, in steps of `10 ^ 308` on the way down. -/
def scaleByTen (f : Binary64) (e : Int) : Option Binary64 :=
  if h : e < -308 then
    if f.isZero then some f
    else do
      let p ← powerOfTen 308
      let g ← f.div p
      scaleByTen g (e + 308)
  else if e < 0 then do
    let p ← powerOfTen (-e).toNat
    f.div p
  else if e ≤ 308 then do
    let p ← powerOfTen e.toNat
    f.mul p
  else if f.isZero then some f else none
termination_by (-e).toNat
decreasing_by omega

def floatOf (negative : Bool) (digits : Nat) (e : Int) : Option Number := do
  let f ← Binary64.ofFraction false digits 1
  let g ← scaleByTen f e
  return .float { g with negative }

def ofDigits (ds : List Nat) : Nat := ds.foldl (fun n d => n * 10 + d) 0

def exponentLimit : Nat := Nat.pow 2 31

def clampExponent (e : Int) : Int := max (-(Int.pow 2 31 : Int)) (min (Int.pow 2 31 - 1 : Int) e)

/-- `none` when the numeral is too large. -/
def Numeral.value (n : Numeral) : Option Number :=
  let whole := appendDigits 0 n.whole
  let dropped : Nat := n.whole.length - whole.2
  let fraction := match n.fraction with
    | none => (whole.1, 0)
    | some ds => appendDigits whole.1 ds
  let scale : Int := (dropped : Int) - (fraction.2 : Nat)
  match n.fraction, n.exponent with
  | none, none =>
      if dropped ≠ 0 then floatOf n.negative whole.1 dropped
      else if !n.negative then some (.int whole.1)
      else if whole.1 = 0 ∨ Nat.pow 2 63 < whole.1 then floatOf true whole.1 0
      else some (.int (-(whole.1 : Int)))
  | _, none => floatOf n.negative fraction.1 scale
  | _, some (down, es) =>
      let e := ofDigits es
      if exponentLimit ≤ e then
        if fraction.1 ≠ 0 ∧ !down then none else some (.float (Binary64.zero n.negative))
      else floatOf n.negative fraction.1 (clampExponent (if down then scale - e else scale + e))

end ChangeReport.Json
