/-! Splitting text at characters and at lines, and finding one text inside another. Every
function works on lists of characters; nothing is lost by a split but the separators. -/
namespace ChangeReport.Text

/-- The pieces between the occurrences of `sep`; an empty text has one empty piece. -/
def splitChars (sep : Char) : List Char → List (List Char)
  | [] => [[]]
  | c :: cs =>
      if c = sep then [] :: splitChars sep cs
      else match splitChars sep cs with
        | [] => [[c]]
        | piece :: rest => (c :: piece) :: rest

def split (sep : Char) (s : String) : List String :=
  (splitChars sep s.toList).map String.ofList

def cutChars? (sep : Char) : List Char → Option (List Char × List Char)
  | [] => none
  | c :: cs =>
      if c = sep then some ([], cs)
      else (cutChars? sep cs).map fun p => (c :: p.1, p.2)

def afterStart? : List Char → List Char → Option (List Char)
  | [], cs => some cs
  | _ :: _, [] => none
  | p :: ps, c :: cs => if p = c then afterStart? ps cs else none

def startsWith (start cs : List Char) : Bool := (afterStart? start cs).isSome

/-- The text before and after the first occurrence of `pat`. -/
def cutAt? (pat : List Char) : List Char → Option (List Char × List Char)
  | [] => (afterStart? pat []).map fun rest => ([], rest)
  | c :: cs =>
      match afterStart? pat (c :: cs) with
      | some rest => some ([], rest)
      | none => (cutAt? pat cs).map fun p => (c :: p.1, p.2)

/-- The occurrences in what follows the next `skip` characters, which belong to one
already counted. -/
def occurrencesFrom (pat : List Char) : Nat → List Char → Nat
  | _, [] => 0
  | skip + 1, _ :: cs => occurrencesFrom pat skip cs
  | 0, c :: cs =>
      if startsWith pat (c :: cs) then occurrencesFrom pat (pat.length - 1) cs + 1
      else occurrencesFrom pat 0 cs

/-- The number of occurrences of the nonempty text `pat` that do not overlap. -/
def occurrences (pat cs : List Char) : Nat := occurrencesFrom pat 0 cs

def firstLine (cs : List Char) : List Char := cs.takeWhile (· ≠ '\n')

theorem afterStart?_eq_some_iff {p cs r : List Char} :
    afterStart? p cs = some r ↔ cs = p ++ r := by
  induction p generalizing cs with
  | nil => simp [afterStart?]
  | cons x p ih =>
      cases cs with
      | nil => simp [afterStart?]
      | cons c cs =>
          by_cases eq : x = c
          · simp [afterStart?, eq, ih]
          · simp [afterStart?, eq, Ne.symm eq]

theorem afterStart?_append (p r : List Char) : afterStart? p (p ++ r) = some r :=
  afterStart?_eq_some_iff.2 rfl

end ChangeReport.Text
