import ChangeReport.Document

/-! Parsed data before it is given a meaning: members of an object in the order of the
text, with repetitions, and scalars that may turn out to have no value. -/
namespace ChangeReport

/-- A scalar without a value is harmless where it is not looked at: a string with half of
a surrogate pair, a number too large for a double. -/
inductive Tree where
  | null
  | bool (value : Bool)
  | number (value : Option Number)
  | string (value : Option String)
  | array (items : List Tree)
  | object (members : List (Option String × Tree))
deriving Inhabited

mutual
/-- The document of a tree; the last of several members of one name counts. -/
def Tree.toDocument? (depth : Nat) : Tree → Option Document
  | .null => some .null
  | .bool b => some (.bool b)
  | .number n => n.map .number
  | .string s => s.map .string
  | .array items =>
      if depth = 0 then none else (Tree.toItems? (depth - 1) items).map .array
  | .object members =>
      if depth = 0 then none
      else (Tree.toFields? (depth - 1) members).map fun fields => .object (Assoc.ofList fields)

def Tree.toItems? (depth : Nat) : List Tree → Option (List Document)
  | [] => some []
  | t :: rest => do
      let d ← Tree.toDocument? depth t
      let ds ← Tree.toItems? depth rest
      return d :: ds

def Tree.toFields? (depth : Nat) : List (Option String × Tree) → Option (List (String × Document))
  | [] => some []
  | (name, t) :: rest => do
      let k ← name
      let d ← Tree.toDocument? depth t
      let ds ← Tree.toFields? depth rest
      return (k, d) :: ds
end

mutual
def Tree.ofDocument : Document → Tree
  | .null => .null
  | .bool b => .bool b
  | .number n => .number (some n)
  | .string s => .string (some s)
  | .array items => .array (Tree.ofItems items)
  | .object fields => .object (Tree.ofFields fields)

def Tree.ofItems : List Document → List Tree
  | [] => []
  | d :: rest => Tree.ofDocument d :: Tree.ofItems rest

def Tree.ofFields : List (String × Document) → List (Option String × Tree)
  | [] => []
  | (k, d) :: rest => (some k, Tree.ofDocument d) :: Tree.ofFields rest
end

end ChangeReport
