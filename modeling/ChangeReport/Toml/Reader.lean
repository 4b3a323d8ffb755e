import ChangeReport.Toml.Scalar
import ChangeReport.Toml.Table

/-! Reading TOML text. The fuel of the readers of nested values is twice the length of the
text, which no nesting exhausts. -/
namespace ChangeReport.Toml

/-- Blanks, line ends and comments between the items of an array. -/
def skipFiller : Nat → List Char → List Char
  | 0, cs => cs
  | fuel + 1, cs =>
      match skipSpace cs with
      | '#' :: rest => skipFiller fuel (rest.dropWhile isPlain)
      | rest =>
          match newline? rest with
          | some rest => skipFiller fuel rest
          | none => rest

def filler (cs : List Char) : List Char := skipFiller cs.length cs

def scalar? (cs : List Char) : Option (Tree × List Char) :=
  match cs with
  | '"' :: _ | '\'' :: _ => (string? cs).map fun r => (.string (some (String.ofList r.1)), r.2)
  | 't' :: 'r' :: 'u' :: 'e' :: rest => some (.bool true, rest)
  | 'f' :: 'a' :: 'l' :: 's' :: 'e' :: rest => some (.bool false, rest)
  | _ =>
      match moment? cs with
      | some rest => some (dateTree (cs.take (cs.length - rest.length)), rest)
      | none => (number? cs).map fun r => (.number r.1, r.2)

mutual
/-- A value that nests less than `depth` further values. -/
def value? : Nat → Nat → List Char → Option (Tree × List Char)
  | 0, _, _ => none
  | fuel + 1, depth, cs =>
      match cs with
      | '[' :: rest =>
          if depth = 0 then none
          else match filler rest with
            | ']' :: after => some (.array [], after)
            | more => (items? fuel (depth - 1) more).map fun r => (.array r.1, r.2)
      | '\x7b' :: rest =>
          if depth = 0 then none
          else match skipSpace rest with
            | '\x7d' :: after => some (.object [], after)
            | more => do
                let (pairs, after) ← pairs? fuel (depth - 1) more
                let t ← Table.ofPairs? pairs
                return (t.toTree, after)
      | _ => scalar? cs

def items? : Nat → Nat → List Char → Option (List Tree × List Char)
  | 0, _, _ => none
  | fuel + 1, depth, cs => do
      let (t, rest) ← value? fuel depth cs
      match filler rest with
      | ']' :: after => return ([t], after)
      | ',' :: more =>
          match filler more with
          | ']' :: after => return ([t], after)
          | more => do
              let (ts, after) ← items? fuel depth more
              return (t :: ts, after)
      | _ => none

def pairs? : Nat → Nat → List Char → Option (List (List String × String × Tree) × List Char)
  | 0, _, _ => none
  | fuel + 1, depth, cs => do
      let (path, k, rest) ← key? cs
      match rest with
      | '=' :: more => do
          let (t, rest) ← value? fuel depth (skipSpace more)
          match skipSpace rest with
          | '\x7d' :: after => return ([(path, k, t)], after)
          | ',' :: more => do
              let (ps, after) ← pairs? fuel depth more
              return ((path, k, t) :: ps, after)
          | _ => none
      | _ => none
end

inductive Statement where
  | table (path : List String) (key : String)
  | listed (path : List String) (key : String)
  | define (path : List String) (key : String) (value : Tree)

/-- A statement with the rest of the text after its line. -/
def statement? (cs : List Char) : Option (Statement × List Char) :=
  match cs with
  | '[' :: '[' :: rest => do
      let (path, k, rest) ← key? rest
      match rest with
      | ']' :: ']' :: rest => return (.listed path k, ← lineEnd? rest)
      | _ => none
  | '[' :: rest => do
      let (path, k, rest) ← key? rest
      match rest with
      | ']' :: rest => return (.table path k, ← lineEnd? rest)
      | _ => none
  | _ => do
      let (path, k, rest) ← key? cs
      match rest with
      | '=' :: rest => do
          let (t, rest) ← value? (2 * rest.length + 2) (depthLimit - 1) (skipSpace rest)
          return (.define path k t, ← lineEnd? rest)
      | _ => none

def statements? : Nat → List Char → Option (List Statement)
  | 0, _ => some []
  | fuel + 1, cs =>
      match skipSpace cs with
      | [] => some []
      | rest =>
          match lineEnd? rest with
          | some rest => statements? fuel rest
          | none => do
              let (s, rest) ← statement? rest
              let ss ← statements? fuel rest
              return s :: ss

/-- Follows a statement; `header` is the path of the table that is open. -/
def Statement.apply (acc : List String × Table) : Statement → Option (List String × Table)
  | .table path k => (acc.2.openTable path k).map fun root => (path ++ [k], root)
  | .listed path k => (acc.2.openListed path k).map fun root => (path ++ [k], root)
  | .define path k v => (acc.2.defineAt acc.1 path k v).map fun root => (acc.1, root)

/-- A byte order mark in front of a text has no meaning. -/
def skipMark : List Char → List Char
  | '\ufeff' :: rest => rest
  | cs => cs

def parse? (cs : List Char) : Option Tree := do
  let ss ← statements? (cs.length + 1) (skipMark cs)
  let (_, root) ← ss.foldlM Statement.apply ([], [])
  return root.toTree

end ChangeReport.Toml
