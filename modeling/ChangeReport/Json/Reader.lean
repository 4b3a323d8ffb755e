import ChangeReport.Tree
import ChangeReport.Json.Numeral

/-! Reading JSON text. A reader takes the text and returns what it read with the rest. The
fuel of the readers of nested values is twice the length of the text, which no nesting
exhausts. -/
namespace ChangeReport.Json

def isSpace (c : Char) : Bool := c == ' ' || c == '\t' || c == '\n' || c == '\r'

def skipSpace (cs : List Char) : List Char := cs.dropWhile isSpace

def hexDigit? (c : Char) : Option Nat :=
  if '0' ≤ c ∧ c ≤ '9' then some (c.toNat - '0'.toNat)
  else if 'a' ≤ c ∧ c ≤ 'f' then some (c.toNat - 'a'.toNat + 10)
  else if 'A' ≤ c ∧ c ≤ 'F' then some (c.toNat - 'A'.toNat + 10)
  else none

def hexUnit? (a b c d : Char) : Option Nat := do
  return (((← hexDigit? a) * 16 + (← hexDigit? b)) * 16 + (← hexDigit? c)) * 16 + (← hexDigit? d)

def isHighSurrogate (n : Nat) : Bool := 0xD800 ≤ n && n ≤ 0xDBFF

def isLowSurrogate (n : Nat) : Bool := 0xDC00 ≤ n && n ≤ 0xDFFF

def simpleEscape? : Char → Option Char
  | '"' => some '"'
  | '\\' => some '\\'
  | '/' => some '/'
  | 'b' => some '\x08'
  | 'f' => some '\x0c'
  | 'n' => some '\n'
  | 'r' => some '\r'
  | 't' => some '\t'
  | _ => none

/-- What one character or one escape of a string stands for: a character or half of a
pair. -/
inductive Unit16 where
  | char (c : Char)
  | high (unit : Nat)
  | low (unit : Nat)
deriving DecidableEq

def Unit16.ofNat (n : Nat) : Unit16 :=
  if isHighSurrogate n then .high n else if isLowSurrogate n then .low n else .char (Char.ofNat n)

/-- The units of a string after its opening quote, and what follows the closing quote. -/
def stringUnits : List Char → Option (List Unit16 × List Char)
  | [] => none
  | '"' :: rest => some ([], rest)
  | '\\' :: 'u' :: a :: b :: c :: d :: rest => do
      let n ← hexUnit? a b c d
      let (units, last) ← stringUnits rest
      return (Unit16.ofNat n :: units, last)
  | '\\' :: c :: rest => do
      let e ← simpleEscape? c
      let (units, last) ← stringUnits rest
      return (.char e :: units, last)
  | c :: rest =>
      if c.toNat < 0x20 ∨ c = '\\' then none
      else (stringUnits rest).map fun r => (.char c :: r.1, r.2)

/-- The text of units, when every half has its other half. -/
def joinUnits : List Unit16 → Option (List Char)
  | [] => some []
  | .char c :: rest => (joinUnits rest).map (c :: ·)
  | .high n :: .low m :: rest =>
      (joinUnits rest).map (Char.ofNat (0x10000 + (n - 0xD800) * 0x400 + (m - 0xDC00)) :: ·)
  | _ :: _ => none

/-- A string after its opening quote. Its value is lost when half of a surrogate pair
stands alone. -/
def stringRest (cs : List Char) : Option (Option (List Char) × List Char) :=
  (stringUnits cs).map fun r => (joinUnits r.1, r.2)

def digitValues (cs : List Char) : List Nat := cs.map fun c => c.toNat - '0'.toNat

def numeral? (negative : Bool) (cs : List Char) : Option (Numeral × List Char) := do
  let whole := cs.takeWhile Char.isDigit
  let rest := cs.dropWhile Char.isDigit
  guard (whole ≠ [] ∧ (whole.head? = some '0' → whole.length = 1))
  let (fraction, rest) ← match rest with
    | '.' :: more =>
        let ds := more.takeWhile Char.isDigit
        if ds = [] then none else some (some (digitValues ds), more.dropWhile Char.isDigit)
    | _ => some (none, rest)
  let exponentAfter (more : List Char) : Option (Option (Bool × List Nat) × List Char) :=
    let (down, more) := match more with
      | '-' :: t => (true, t)
      | '+' :: t => (false, t)
      | t => (false, t)
    let ds := more.takeWhile Char.isDigit
    if ds = [] then none else some (some (down, digitValues ds), more.dropWhile Char.isDigit)
  let (exponent, rest) ← match rest with
    | 'e' :: more => exponentAfter more
    | 'E' :: more => exponentAfter more
    | _ => some (none, rest)
  return (⟨negative, digitValues whole, fraction, exponent⟩, rest)

mutual
def value? : Nat → List Char → Option (Tree × List Char)
  | 0, _ => none
  | fuel + 1, cs =>
      match skipSpace cs with
      | 'n' :: 'u' :: 'l' :: 'l' :: rest => some (.null, rest)
      | 't' :: 'r' :: 'u' :: 'e' :: rest => some (.bool true, rest)
      | 'f' :: 'a' :: 'l' :: 's' :: 'e' :: rest => some (.bool false, rest)
      | '"' :: rest => (stringRest rest).map fun r => (.string (r.1.map String.ofList), r.2)
      | '[' :: rest =>
          match skipSpace rest with
          | ']' :: after => some (.array [], after)
          | _ => (items? fuel rest).map fun r => (.array r.1, r.2)
      | '\x7b' :: rest =>
          match skipSpace rest with
          | '\x7d' :: after => some (.object [], after)
          | _ => (members? fuel rest).map fun r => (.object r.1, r.2)
      | '-' :: rest => (numeral? true rest).map fun r => (.number r.1.value, r.2)
      | rest => (numeral? false rest).map fun r => (.number r.1.value, r.2)

def items? : Nat → List Char → Option (List Tree × List Char)
  | 0, _ => none
  | fuel + 1, cs => do
      let (t, rest) ← value? fuel cs
      match skipSpace rest with
      | ',' :: more => do
          let (ts, last) ← items? fuel more
          return (t :: ts, last)
      | ']' :: more => return ([t], more)
      | _ => none

def members? : Nat → List Char → Option (List (Option String × Tree) × List Char)
  | 0, _ => none
  | fuel + 1, cs =>
      match skipSpace cs with
      | '"' :: start => do
          let (name, rest) ← stringRest start
          match skipSpace rest with
          | ':' :: body => do
              let (t, rest) ← value? fuel body
              let member := (name.map String.ofList, t)
              match skipSpace rest with
              | ',' :: more => do
                  let (ms, last) ← members? fuel more
                  return (member :: ms, last)
              | '\x7d' :: more => return ([member], more)
              | _ => none
          | _ => none
      | _ => none
end

def parse (cs : List Char) : Option Tree := do
  let (t, rest) ← value? (2 * cs.length + 2) cs
  guard (skipSpace rest = [])
  return t

/-- Documents nest at most this deep when they are read from JSON. -/
def maxDepth : Nat := 127

def decode (s : String) : Option Document := do
  (← parse s.toList).toDocument? maxDepth

end ChangeReport.Json
