import ChangeReport.Json.Reader
import ChangeReport.Tree

/-! Keys, strings, numbers and dates of TOML. A reader takes the text and returns what it
read with the rest. -/
namespace ChangeReport.Toml

def isSpace (c : Char) : Bool := c == ' ' || c == '\t'

def skipSpace (cs : List Char) : List Char := cs.dropWhile isSpace

/-- Characters of comments and of strings on one line. -/
def isPlain (c : Char) : Bool := c == '\t' || (0x20 ≤ c.toNat && c.toNat != 0x7F)

def newline? : List Char → Option (List Char)
  | '\n' :: rest => some rest
  | '\r' :: '\n' :: rest => some rest
  | _ => none

def skipComment : List Char → List Char
  | '#' :: rest => rest.dropWhile isPlain
  | cs => cs

/-- The rest of a line that says nothing more. -/
def lineEnd? (cs : List Char) : Option (List Char) :=
  match skipComment (skipSpace cs) with
  | [] => some []
  | rest => newline? rest

def simpleEscape? : Char → Option Char
  | 'b' => some '\x08'
  | 't' => some '\t'
  | 'n' => some '\n'
  | 'f' => some '\x0c'
  | 'r' => some '\r'
  | '"' => some '"'
  | '\\' => some '\\'
  | _ => none

def hexChar? (digits : List Char) : Option Char := do
  let n ← digits.foldlM (fun n c => (Json.hexDigit? c).map fun d => n * 16 + d) 0
  if n.isValidChar then some (Char.ofNat n) else none

/-- A string after its opening quote. -/
def basicRest : List Char → Option (List Char × List Char)
  | [] => none
  | '"' :: rest => some ([], rest)
  | '\\' :: 'u' :: a :: b :: c :: d :: rest => do
      let x ← hexChar? [a, b, c, d]
      let (text, rest) ← basicRest rest
      return (x :: text, rest)
  | '\\' :: 'U' :: a :: b :: c :: d :: e :: f :: g :: h :: rest => do
      let x ← hexChar? [a, b, c, d, e, f, g, h]
      let (text, rest) ← basicRest rest
      return (x :: text, rest)
  | '\\' :: c :: rest => do
      let x ← simpleEscape? c
      let (text, rest) ← basicRest rest
      return (x :: text, rest)
  | c :: rest => if isPlain c && c != '\\' then (basicRest rest).map fun r => (c :: r.1, r.2) else none

def literalRest (cs : List Char) : Option (List Char × List Char) :=
  let text := cs.takeWhile fun c => isPlain c && c != '\''
  match cs.dropWhile fun c => isPlain c && c != '\'' with
  | '\'' :: rest => some (text, rest)
  | _ => none

/-- The end of a string on several lines: three quotes, with up to two more that belong to
the text before them. -/
def closing? (q : Char) (cs : List Char) : Option (List Char × List Char) :=
  let run := min (cs.takeWhile (· == q)).length 5
  if run < 3 then none else some (List.replicate (run - 3) q, cs.drop run)

def skipLines : List Char → List Char
  | '\n' :: rest => skipLines rest
  | '\r' :: '\n' :: rest => skipLines rest
  | c :: rest => if isSpace c then skipLines rest else c :: rest
  | [] => []

/-- A string on several lines after its opening quotes. A line feed after a backslash is
left out, with all blanks that follow. -/
def linesRest (q : Char) : Nat → List Char → Option (List Char × List Char)
  | 0, _ => none
  | fuel + 1, cs =>
      match closing? q cs with
      | some r => some r
      | none =>
          match cs with
          | [] => none
          | '\n' :: rest => (linesRest q fuel rest).map fun r => ('\n' :: r.1, r.2)
          | '\r' :: rest => do
              let rest ← newline? ('\r' :: rest)
              (linesRest q fuel rest).map fun r => ('\n' :: r.1, r.2)
          | '\\' :: rest =>
              if q == '\'' then (linesRest q fuel rest).map fun r => ('\\' :: r.1, r.2)
              else if (newline? (skipSpace rest)).isSome then linesRest q fuel (skipLines rest)
              else do
                let (x, rest) ← match rest with
                  | 'u' :: more => (hexChar? (more.take 4)).bind fun x =>
                      if 4 ≤ more.length then some (x, more.drop 4) else none
                  | 'U' :: more => (hexChar? (more.take 8)).bind fun x =>
                      if 8 ≤ more.length then some (x, more.drop 8) else none
                  | c :: more => (simpleEscape? c).map fun x => (x, more)
                  | [] => none
                (linesRest q fuel rest).map fun r => (x :: r.1, r.2)
          | c :: rest => if isPlain c then (linesRest q fuel rest).map fun r => (c :: r.1, r.2) else none

/-- The line feed after the opening quotes is no part of the text. -/
def linesString? (q : Char) (cs : List Char) : Option (List Char × List Char) :=
  let cs := (newline? cs).getD cs
  linesRest q (cs.length + 1) cs

def string? : List Char → Option (List Char × List Char)
  | '"' :: '"' :: '"' :: rest => linesString? '"' rest
  | '"' :: rest => basicRest rest
  | '\'' :: '\'' :: '\'' :: rest => linesString? '\'' rest
  | '\'' :: rest => literalRest rest
  | _ => none

def isKeyChar (c : Char) : Bool := c.isAlphanum || c == '-' || c == '_'

def simpleKey? : List Char → Option (String × List Char)
  | '"' :: rest => (basicRest rest).map fun r => (String.ofList r.1, r.2)
  | '\'' :: rest => (literalRest rest).map fun r => (String.ofList r.1, r.2)
  | cs =>
      let name := cs.takeWhile isKeyChar
      if name.isEmpty then none else some (String.ofList name, cs.dropWhile isKeyChar)

def depthLimit : Nat := 80

/-- The parts of a key after its first one; dots may have blanks around them. -/
def keyRest : Nat → List Char → Option (List String × List Char)
  | 0, _ => none
  | fuel + 1, cs =>
      match skipSpace cs with
      | '.' :: more => do
          let (k, rest) ← simpleKey? (skipSpace more)
          let (ks, rest) ← keyRest fuel rest
          return (k :: ks, rest)
      | rest => some ([], rest)

/-- A dotted key: the path to its table, its name there, and the rest. -/
def key? (cs : List Char) : Option (List String × String × List Char) := do
  let (k, rest) ← simpleKey? (skipSpace cs)
  let (ks, rest) ← keyRest (depthLimit - 1) rest
  let parts := k :: ks
  return (parts.dropLast, parts.getLast?.getD k, rest)

/-- Digits, with single underscores between them. -/
def digitRun (ok : Char → Bool) : List Char → List Char × List Char
  | '_' :: c :: rest =>
      if ok c then
        let r := digitRun ok rest
        (c :: r.1, r.2)
      else ([], '_' :: c :: rest)
  | c :: rest =>
      if ok c then
        let r := digitRun ok rest
        (c :: r.1, r.2)
      else ([], c :: rest)
  | [] => ([], [])

/-- Digits of which the first is no underscore. -/
def digits? (ok : Char → Bool) (cs : List Char) : Option (List Char × List Char) :=
  match cs with
  | c :: _ => if ok c then some (digitRun ok cs) else none
  | [] => none

/-- The digits of a whole number, which does not begin with a zero unless it is zero. -/
def whole? : List Char → Option (List Char × List Char)
  | '0' :: rest => some (['0'], rest)
  | cs => digits? Char.isDigit cs

def valueOf (base : Nat) (ds : List Char) : Nat := ds.foldl (fun n c => n * base + (Json.hexDigit? c).getD 0) 0

/-- Integers have 64 bits, one of them for the sign. -/
def integer? (negative : Bool) (n : Nat) : Option Number :=
  if negative then if n ≤ Nat.pow 2 63 then some (.int (-(n : Int))) else none
  else if n < Nat.pow 2 63 then some (.int n) else none

/-- Beyond this power of ten a float is out of range on either side. -/
def floatRange : Int := 400

/-- The float with these digits times a power of ten. None is too large, but on the
negative side the value is lost instead. -/
def float? (negative : Bool) (ds : List Char) (e : Int) : Option (Option Number) :=
  let n := valueOf 10 ds
  let size : Int := (toString n).length + e
  let found := if n = 0 ∨ size < -floatRange then some (Binary64.zero negative)
    else if floatRange < size then none
    else if e < 0 then Binary64.ofFraction negative n (Nat.pow 10 (-e).toNat)
    else Binary64.ofFraction negative (n * Nat.pow 10 e.toNat) 1
  match found with
  | some f => some (some (.float f))
  | none => if negative then some none else none

def exponent? : List Char → Option (Int × List Char)
  | '-' :: rest => (digits? Char.isDigit rest).map fun r => (-(valueOf 10 r.1 : Int), r.2)
  | '+' :: rest => (digits? Char.isDigit rest).map fun r => ((valueOf 10 r.1 : Int), r.2)
  | rest => (digits? Char.isDigit rest).map fun r => ((valueOf 10 r.1 : Int), r.2)

/-- What follows the whole part of a decimal number. -/
def decimalRest? (negative : Bool) (whole rest : List Char) : Option (Option Number × List Char) := do
  let (fraction, rest) ← match rest with
    | '.' :: more => (digits? Char.isDigit more).map fun r => (some r.1, r.2)
    | rest => some (none, rest)
  let (exponent, rest) ← match rest with
    | 'e' :: more => (exponent? more).map fun r => (some r.1, r.2)
    | 'E' :: more => (exponent? more).map fun r => (some r.1, r.2)
    | rest => some (none, rest)
  match fraction, exponent with
  | none, none => (integer? negative (valueOf 10 whole)).map fun n => (some n, rest)
  | _, _ =>
      let ds := fraction.getD []
      (float? negative (whole ++ ds) (exponent.getD 0 - ds.length)).map fun n => (n, rest)

/-- A decimal number after its sign. Infinities and the like have no value here. -/
def decimal? (negative : Bool) : List Char → Option (Option Number × List Char)
  | 'i' :: 'n' :: 'f' :: rest => some (none, rest)
  | 'n' :: 'a' :: 'n' :: rest => some (none, rest)
  | cs => do
      let (whole, rest) ← whole? cs
      decimalRest? negative whole rest

def isOctal (c : Char) : Bool := '0' ≤ c && c ≤ '7'

def isBinary (c : Char) : Bool := c == '0' || c == '1'

def isHex (c : Char) : Bool := (Json.hexDigit? c).isSome

def based? (base : Nat) (ok : Char → Bool) (cs : List Char) : Option (Option Number × List Char) := do
  let (ds, rest) ← digits? ok cs
  (integer? false (valueOf base ds)).map fun n => (some n, rest)

def number? : List Char → Option (Option Number × List Char)
  | '0' :: 'x' :: rest => based? 16 isHex rest
  | '0' :: 'o' :: rest => based? 8 isOctal rest
  | '0' :: 'b' :: rest => based? 2 isBinary rest
  | '+' :: rest => decimal? false rest
  | '-' :: rest => decimal? true rest
  | rest => decimal? false rest

def fixed? (n least greatest : Nat) (cs : List Char) : Option (Nat × List Char) :=
  let ds := cs.take n
  let v := valueOf 10 ds
  if ds.length = n && ds.all Char.isDigit && least ≤ v && v ≤ greatest then some (v, cs.drop n) else none

def mark? (m : Char) : List Char → Option (List Char)
  | c :: rest => if c = m then some rest else none
  | [] => none

def daysIn (year month : Nat) : Nat :=
  if month = 2 then if year % 4 = 0 ∧ (year % 100 ≠ 0 ∨ year % 400 = 0) then 29 else 28
  else if month = 4 ∨ month = 6 ∨ month = 9 ∨ month = 11 then 30
  else 31

def time? (cs : List Char) : Option (List Char) := do
  let (_, rest) ← fixed? 2 0 23 cs
  let (_, rest) ← fixed? 2 0 59 (← mark? ':' rest)
  let (_, rest) ← fixed? 2 0 60 (← mark? ':' rest)
  match rest with
  | '.' :: c :: more => return if c.isDigit then more.dropWhile Char.isDigit else rest
  | _ => return rest

def offset? : List Char → Option (List Char)
  | 'Z' :: rest => some rest
  | 'z' :: rest => some rest
  | '+' :: rest => size rest
  | '-' :: rest => size rest
  | rest => some rest
where
  size (cs : List Char) : Option (List Char) := do
    let (_, rest) ← fixed? 2 0 23 cs
    let (_, rest) ← fixed? 2 0 59 (← mark? ':' rest)
    return rest

/-- A date, with a time and an offset where there are any: what follows it. -/
def date? (cs : List Char) : Option (List Char) := do
  let (year, rest) ← fixed? 4 0 9999 cs
  let (month, rest) ← fixed? 2 1 12 (← mark? '-' rest)
  let (_, rest) ← fixed? 2 1 (daysIn year month) (← mark? '-' rest)
  match rest with
  | c :: more =>
      if c = 'T' ∨ c = 't' ∨ c = ' ' then
        match time? more with
        | some after => offset? after
        | none => return rest
      else return rest
  | [] => return rest

/-- Dates stand for an object with this member, which no record has. -/
def dateMember : String := "$date"

/-- A date or a time of day; any other text is none of them. -/
def moment? (cs : List Char) : Option (List Char) :=
  if (cs.take 4).all Char.isDigit && (cs.drop 4).head? == some '-' then date? cs
  else if (cs.take 2).all Char.isDigit && (cs.drop 2).head? == some ':' then time? cs
  else none

def dateTree (text : List Char) : Tree := .object [(some dateMember, .string (some (String.ofList text)))]

end ChangeReport.Toml
