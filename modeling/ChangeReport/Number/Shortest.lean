import ChangeReport.Number.Binary64

/-! The shortest decimal text of a double: the fewest digits that read back as the same
double, and among these the nearest to its value. -/
namespace ChangeReport.Binary64

/-- A decimal `digits * 10 ^ scale`. -/
structure Decimal where
  digits : Nat
  scale : Int
deriving DecidableEq, Repr

def Decimal.toFraction (d : Decimal) : Nat × Nat :=
  if 0 ≤ d.scale then (d.digits * Nat.pow 10 d.scale.toNat, 1) else (d.digits, Nat.pow 10 (-d.scale).toNat)

def Decimal.readsAs (d : Decimal) (x : Binary64) : Bool :=
  match ofFraction x.negative d.toFraction.1 d.toFraction.2 with
  | some y => decide (y = x)
  | none => false

/-- The largest `k` at most `top` with `10 ^ k ≤ num / den`, searched downwards. -/
def decimalExponent (num den : Nat) : Nat → Int → Int
  | 0, top => top
  | fuel + 1, top =>
      let reached := if 0 ≤ top then den * Nat.pow 10 top.toNat ≤ num else den ≤ num * Nat.pow 10 (-top).toNat
      if reached then top else decimalExponent num den fuel (top - 1)

/-- The two neighbours of the value on the grid of multiples of `10 ^ scale`, the nearer
one first, at a tie the even one. -/
def gridNeighbours (num den : Nat) (scale : Int) : List Decimal :=
  let n := if 0 ≤ scale then num else num * Nat.pow 10 (-scale).toNat
  let d := if 0 ≤ scale then den * Nat.pow 10 scale.toNat else den
  let below := n / d
  let nearest := roundDiv n d
  if nearest = below then [⟨below, scale⟩, ⟨below + 1, scale⟩] else [⟨below + 1, scale⟩, ⟨below, scale⟩]

/-- The first grid, from coarse to fine, with a neighbour that reads back. -/
def firstGrid (x : Binary64) (num den : Nat) : Nat → Int → Option Decimal
  | 0, _ => none
  | fuel + 1, scale =>
      match (gridNeighbours num den scale).find? (·.readsAs x) with
      | some d => some d
      | none => firstGrid x num den fuel (scale - 1)

def Decimal.dropZeros : Nat → Decimal → Decimal
  | 0, d => d
  | fuel + 1, d =>
      if d.digits ≠ 0 ∧ d.digits % 10 = 0 then Decimal.dropZeros fuel ⟨d.digits / 10, d.scale + 1⟩ else d

def exactDecimal (x : Binary64) : Decimal :=
  if 0 ≤ x.exponent then ⟨x.mantissa * Nat.pow 2 x.exponent.toNat, 0⟩
  else ⟨x.mantissa * Nat.pow 5 (-x.exponent).toNat, x.exponent⟩

def shortest (x : Binary64) : Decimal :=
  let f := x.toFraction
  let estimate : Int := ((Nat.log2 f.1 : Int) - (Nat.log2 f.2 : Int) + 1) * 30103 / 100000 + 1
  let top := decimalExponent f.1 f.2 8 estimate
  ((firstGrid x f.1 f.2 17 top).getD x.exactDecimal).dropZeros 400

/-- The notation of floats: a decimal point stands at most after `places` digits, at most
`zeros` places follow a leading point before the first digit, any other float has an
exponent, and `plus` marks a positive one. -/
structure FloatLayout where
  places : Int
  zeros : Int
  plus : Bool

/-- The digits and the exponent of a float outside the range of positional notation. -/
def FloatLayout.scientific (layout : FloatLayout) (digits : List Char) (exponent : Int) : List Char :=
  let head := match digits with
    | [] => []
    | [c] => [c]
    | c :: rest => c :: '.' :: rest
  let sign := if layout.plus ∧ 0 ≤ exponent then ['+'] else []
  head ++ 'e' :: (sign ++ (toString exponent).toList)

/-- The shortest text of a double. Positional notation always has a digit after the point.
-/
def render (layout : FloatLayout) (x : Binary64) : String :=
  let sign := if x.negative then "-" else ""
  if x.isZero then sign ++ "0.0"
  else
    let d := x.shortest
    let digits := (toString d.digits).toList
    let point : Int := digits.length + d.scale
    let body :=
      if 0 ≤ d.scale ∧ point ≤ layout.places then
        digits ++ List.replicate d.scale.toNat '0' ++ ['.', '0']
      else if 0 < point ∧ point ≤ layout.places then
        digits.take point.toNat ++ '.' :: digits.drop point.toNat
      else if -layout.zeros < point ∧ point ≤ 0 then
        '0' :: '.' :: (List.replicate (-point).toNat '0' ++ digits)
      else layout.scientific digits (point - 1)
    sign ++ String.ofList body

end ChangeReport.Binary64
