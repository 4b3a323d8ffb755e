import ChangeReport.Text.Bytes

/-! Percent encoding: bytes that a part of a URL may not hold stand as `%` with two digits
of base sixteen. -/
namespace ChangeReport.Web

def hexUpper (n : Nat) : Char := if n < 10 then Char.ofNat (48 + n) else Char.ofNat (55 + n)

def escapeByte (b : Nat) : List Char := ['%', hexUpper (b / 16), hexUpper (b % 16)]

/-- A byte, or its escape unless `keep` holds. -/
def encodeByte (keep : Nat → Bool) (b : Nat) : List Char := if keep b then [Char.ofNat b] else escapeByte b

def encodeBytes (keep : Nat → Bool) (bs : List Nat) : List Char := bs.flatMap (encodeByte keep)

/-- Letters, digits and the four marks that mean the same everywhere in a URL. -/
def isUnreserved (b : Nat) : Bool :=
  (0x41 ≤ b && b ≤ 0x5A) || (0x61 ≤ b && b ≤ 0x7A) || (0x30 ≤ b && b ≤ 0x39) ||
    b == 0x2D || b == 0x5F || b == 0x2E || b == 0x7E

def encodeSegment (s : String) : String := String.ofList (encodeBytes isUnreserved (Text.toBytes s.toList))

def hexValue? (c : Char) : Option Nat :=
  if '0' ≤ c ∧ c ≤ '9' then some (c.toNat - 48)
  else if 'A' ≤ c ∧ c ≤ 'F' then some (c.toNat - 55)
  else none

/-- The bytes of an encoded segment; other characters than those of one make it
unreadable. -/
def decodeSegment? : List Char → Option (List Nat)
  | [] => some []
  | '%' :: a :: b :: rest => do
      let x ← hexValue? a
      let y ← hexValue? b
      return (x * 16 + y) :: (← decodeSegment? rest)
  | c :: rest => if isUnreserved c.toNat then (decodeSegment? rest).map (c.toNat :: ·) else none

end ChangeReport.Web
