import ChangeReport.Number.Binary64
import ChangeReport.Text.Split

/-! The meaning of a plain scalar: null, a boolean, a number or text. Only the spellings
listed here are not text; words such as `yes` and `on` are. -/
namespace ChangeReport.Yaml

/-- What a plain scalar means. `wide` is an integer outside of 64 bits but within 128, and
a float without a value is infinite or not a number. -/
inductive Meaning where
  | null
  | bool (value : Bool)
  | int (value : Int)
  | wide
  | float (value : Option Binary64)
  | text
deriving DecidableEq, Repr

def nullWords : List String := ["null", "Null", "NULL", "~"]

def boolWord? (s : String) : Option Bool :=
  if s ∈ ["true", "True", "TRUE"] then some true
  else if s ∈ ["false", "False", "FALSE"] then some false
  else none

def infinityWords : List String := [".inf", ".Inf", ".INF"]

def notANumberWords : List String := [".nan", ".NaN", ".NAN"]

def digit? (base : Nat) (c : Char) : Option Nat :=
  let v? :=
    if '0' ≤ c ∧ c ≤ '9' then some (c.toNat - '0'.toNat)
    else if 'a' ≤ c ∧ c ≤ 'f' then some (c.toNat - 'a'.toNat + 10)
    else if 'A' ≤ c ∧ c ≤ 'F' then some (c.toNat - 'A'.toNat + 10)
    else none
  v?.bind fun v => if v < base then some v else none

def natural? (base : Nat) : List Char → Option Nat
  | [] => none
  | cs => cs.foldlM (fun n c => (digit? base c).map (n * base + ·)) 0

/-- Drops one sign: whether it was a minus, and the rest. -/
def cutSign : List Char → Bool × List Char
  | '-' :: rest => (true, rest)
  | '+' :: rest => (false, rest)
  | cs => (false, cs)

/-- Digits with a leading zero stand for text, not for a number. -/
def isZeroPadded (cs : List Char) : Bool :=
  match (cutSign cs).2 with
  | '0' :: d :: rest => (d :: rest).all Char.isDigit
  | _ => false

/-- The digits after a mark such as `0x`, with their base. -/
def basedDigits? : List Char → Option (Nat × List Char)
  | '0' :: 'x' :: rest => some (16, rest)
  | '0' :: 'o' :: rest => some (8, rest)
  | '0' :: 'b' :: rest => some (2, rest)
  | _ => none

/-- The integer that a text spells, with no bound on its size. -/
def integer? (cs : List Char) : Option Int :=
  let (negative, rest) := cutSign cs
  let value? := match basedDigits? rest with
    | some (base, digits) => natural? base digits
    | none => if isZeroPadded cs then none else natural? 10 rest
  value?.map fun (n : Nat) => if negative then -(n : Int) else n

def digitsOf (cs : List Char) : List Char × List Char := (cs.takeWhile Char.isDigit, cs.dropWhile Char.isDigit)

def exponent? : List Char → Option Int
  | [] => some 0
  | c :: rest =>
      if c = 'e' ∨ c = 'E' then
        let (negative, digits) := cutSign rest
        (natural? 10 digits).map fun (n : Nat) => if negative then -(n : Int) else n
      else none

/-- A decimal float: digits with an optional point and an optional exponent. -/
def decimalFloat? (cs : List Char) : Option Binary64 := do
  let (negative, rest) := cutSign cs
  let (whole, rest) := digitsOf rest
  let (fraction, rest) := match rest with
    | '.' :: more => digitsOf more
    | _ => ([], rest)
  let e ← exponent? rest
  let digits ← natural? 10 (whole ++ fraction)
  Binary64.ofDecimal negative digits (e - (fraction.length : Int))

/-- A float by its word or its digits; a plus sign may come first. -/
def float? (cs : List Char) : Option (Option Binary64) :=
  let unsigned := (cutSign cs).2
  if String.ofList unsigned ∈ infinityWords then some none
  else if String.ofList cs ∈ notANumberWords then some none
  else (decimalFloat? cs).map some

def integerMeaning? (cs : List Char) : Option Meaning := do
  let n ← integer? cs
  if -(Int.pow 2 63) ≤ n ∧ n < Int.pow 2 64 then some (.int n)
  else if -(Int.pow 2 127) ≤ n ∧ n < Int.pow 2 128 then some .wide
  else none

/-- The meaning of a plain scalar; nothing at all means null. -/
def meaning (s : String) : Meaning :=
  if s = "" ∨ s ∈ nullWords then .null
  else match boolWord? s with
    | some b => .bool b
    | none =>
        match integerMeaning? s.toList with
        | some m => m
        | none =>
            if isZeroPadded s.toList then .text
            else match float? s.toList with
              | some x => .float x
              | none => .text

/-- Whether a text is taken for something else when it is written plainly. -/
def isMistakable (s : String) : Bool := meaning s != .text || isZeroPadded s.toList

end ChangeReport.Yaml
