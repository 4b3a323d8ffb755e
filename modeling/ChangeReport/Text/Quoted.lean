import ChangeReport.Text.Shown

/-! Text between double quotes, on one line and without hidden characters. -/
namespace ChangeReport.Text

def letterEscape? : Char → Option Char
  | '\x00' => some '0'
  | '\t' => some 't'
  | '\n' => some 'n'
  | '\r' => some 'r'
  | '"' => some '"'
  | '\\' => some '\\'
  | _ => none

/-- Hidden characters without a letter are written by their number in base sixteen. -/
def quoteChar (c : Char) : List Char :=
  match letterEscape? c with
  | some e => ['\\', e]
  | none => if isShown c then [c] else '\\' :: 'u' :: '\x7b' :: (Nat.toDigits 16 c.toNat ++ ['\x7d'])

def quoted (s : String) : String := String.ofList ('"' :: (s.toList.flatMap quoteChar ++ ['"']))

end ChangeReport.Text
