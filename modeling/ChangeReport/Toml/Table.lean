import ChangeReport.Tree

/-! Tables under construction. A table is defined by a header or by dotted keys, or it is
implied by the header of a table below it; only an implied table may still get a header of
its own. -/
namespace ChangeReport.Toml

inductive Origin where
  | header
  | implied
  | dotted
deriving DecidableEq, Repr

/-- What a key stands for: a value, a table, or a list of tables, the last of which is
still open. -/
inductive Item where
  | value (t : Tree)
  | table (origin : Origin) (entries : List (String × Item))
  | tables (closed : List Tree) (last : List (String × Item))

abbrev Table := List (String × Item)

mutual
def Item.toTree : Item → Tree
  | .value t => t
  | .table _ entries => .object (Item.toMembers entries)
  | .tables closed last => .array (closed ++ [.object (Item.toMembers last)])

def Item.toMembers : List (String × Item) → List (Option String × Tree)
  | [] => []
  | (k, i) :: rest => (some k, Item.toTree i) :: Item.toMembers rest
end

namespace Table

def toTree (t : Table) : Tree := .object (Item.toMembers t)

def replace (k : String) (i : Item) : Table → Table
  | [] => []
  | (l, j) :: rest => if l = k then (k, i) :: rest else (l, j) :: replace k i rest

/-- Changes the table that a path leads to, where `f` is told how it came to be. Missing
tables on the way are made; a path of dotted keys does not enter a table with a header. -/
def update (dotted : Bool) (f : Origin → Table → Option Table) : List String → Origin → Table → Option Table
  | [], origin, t => f origin t
  | k :: path, _, t =>
      match t.lookup k with
      | none =>
          let origin : Origin := if dotted then .dotted else .implied
          (update dotted f path origin []).map fun sub => t ++ [(k, .table origin sub)]
      | some (.value _) => none
      | some (.table origin sub) =>
          if dotted && origin == .header then none
          else (update dotted f path origin sub).map fun sub => replace k (.table origin sub) t
      | some (.tables closed last) =>
          (update dotted f path .header last).map fun last => replace k (.tables closed last) t

/-- Defines a key. A dotted key does not go into a table with a header, nor a plain key
into one made by dotted keys. -/
def define (path : List String) (k : String) (v : Tree) (origin : Origin) (t : Table) : Option Table :=
  update true (fun origin t =>
    if (origin == .dotted) == path.isEmpty then none
    else match t.lookup k with
      | some _ => none
      | none => some (t ++ [(k, .value v)])) path origin t

def defineAt (header path : List String) (k : String) (v : Tree) (root : Table) : Option Table :=
  update false (fun _ t => define path k v .header t) header .header root

def openTable (path : List String) (k : String) (root : Table) : Option Table :=
  update false (fun _ t =>
    match t.lookup k with
    | none => some (t ++ [(k, .table .header [])])
    | some (.table .implied sub) => some (replace k (.table .header sub) t)
    | _ => none) path .header root

def openListed (path : List String) (k : String) (root : Table) : Option Table :=
  update false (fun _ t =>
    match t.lookup k with
    | none => some (t ++ [(k, .tables [] [])])
    | some (.tables closed last) => some (replace k (.tables (closed ++ [toTree last]) []) t)
    | _ => none) path .header root

end Table

def Table.ofPairs? (pairs : List (List String × String × Tree)) : Option Table :=
  pairs.foldlM (fun t p => Table.define p.1 p.2.1 p.2.2 .header t) []

end ChangeReport.Toml
