import ChangeReport.Text.Bytes

/-! Reading bytes as UTF-8. Only shortest forms of characters are read, and halves of
pairs are not. -/
namespace ChangeReport.Text

def isTail (b : Nat) : Bool := 0x80 ≤ b && b < 0xC0

/-- The character of a number, if it has one and needs at least `least` to be written with
these bytes. -/
def charOf? (least n : Nat) : Option Char :=
  if h : n.isValidChar then if least ≤ n then some (Char.ofNatAux n h) else none else none

def ofBytes? : List Nat → Option (List Char)
  | [] => some []
  | a :: rest =>
      if a < 0x80 then (ofBytes? rest).bind fun cs => (charOf? 0 a).map (· :: cs)
      else match rest with
        | [] => none
        | b :: rest =>
            if !isTail b then none
            else if 0xC0 ≤ a ∧ a < 0xE0 then
              (ofBytes? rest).bind fun cs => (charOf? 0x80 ((a - 0xC0) * 0x40 + (b - 0x80))).map (· :: cs)
            else match rest with
              | [] => none
              | c :: rest =>
                  if !isTail c then none
                  else if 0xE0 ≤ a ∧ a < 0xF0 then
                    (ofBytes? rest).bind fun cs =>
                      (charOf? 0x800 (((a - 0xE0) * 0x40 + (b - 0x80)) * 0x40 + (c - 0x80))).map (· :: cs)
                  else match rest with
                    | [] => none
                    | d :: rest =>
                        if !isTail d then none
                        else if 0xF0 ≤ a ∧ a < 0xF8 then
                          (ofBytes? rest).bind fun cs =>
                            (charOf? 0x10000 ((((a - 0xF0) * 0x40 + (b - 0x80)) * 0x40 + (c - 0x80)) * 0x40 +
                              (d - 0x80))).map (· :: cs)
                        else none

end ChangeReport.Text
