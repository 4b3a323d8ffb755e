import ChangeReport.Document
import ChangeReport.Number.Shortest

/-! Compact JSON text: no blanks, fields in their sorted order, and escapes only where the
format needs them. -/
namespace ChangeReport.Json

def hexLower (n : Nat) : Char := if n < 10 then Char.ofNat (48 + n) else Char.ofNat (87 + n)

def escapeChar (c : Char) : List Char :=
  if c = '"' then ['\\', '"']
  else if c = '\\' then ['\\', '\\']
  else if c = '\x08' then ['\\', 'b']
  else if c = '\x0c' then ['\\', 'f']
  else if c = '\n' then ['\\', 'n']
  else if c = '\r' then ['\\', 'r']
  else if c = '\t' then ['\\', 't']
  else if c.toNat < 0x20 then ['\\', 'u', '0', '0', hexLower (c.toNat / 16), hexLower (c.toNat % 16)]
  else [c]

def quote (s : String) : List Char := '"' :: (s.toList.flatMap escapeChar ++ ['"'])

/-- Floats are positional from `10 ^ -5` up to `10 ^ 16`; a positive exponent has its
sign. -/
def floatLayout : Binary64.FloatLayout := ⟨16, 5, true⟩

def renderNumber : Number → List Char
  | .int n => (toString n).toList
  | .float x => (x.render floatLayout).toList

mutual
def render : Document → List Char
  | .null => ['n', 'u', 'l', 'l']
  | .bool true => ['t', 'r', 'u', 'e']
  | .bool false => ['f', 'a', 'l', 's', 'e']
  | .number n => renderNumber n
  | .string s => quote s
  | .array items => '[' :: (renderItems items ++ [']'])
  | .object fields => '\x7b' :: (renderFields fields ++ ['\x7d'])

def renderItems : List Document → List Char
  | [] => []
  | [d] => render d
  | d :: rest => render d ++ ',' :: renderItems rest

def renderFields : List (String × Document) → List Char
  | [] => []
  | [(k, d)] => quote k ++ ':' :: render d
  | (k, d) :: rest => quote k ++ ':' :: (render d ++ ',' :: renderFields rest)
end

def encode (d : Document) : String := String.ofList (render d)

end ChangeReport.Json
