import ChangeReport.Text.Split
import ChangeReport.Text.Utf8

/-! Trees of files, and the paths that lead through them. -/
namespace ChangeReport

inductive FileTree where
  | file (bytes : List Nat)
  | folder (entries : List (String × FileTree))
deriving Inhabited

namespace FileTree

/-- The next place of a walk; `visited` holds the place and the folders above it. An empty
name stays where it is, and nothing is above the root. -/
def step (visited : List FileTree) (name : String) : Option (List FileTree) :=
  match visited with
  | .folder entries :: above =>
      if name = "" ∨ name = "." then some visited
      else if name = ".." then if above.isEmpty then some visited else some above
      else (entries.lookup name).map fun t => t :: visited
  | _ => none

def walk (root : FileTree) (names : List String) : Option FileTree :=
  (names.foldlM step [root]).bind List.head?

mutual
/-- The files below a place, each with the names that lead to it. -/
def files : FileTree → List (List String × List Nat)
  | .file bytes => [([], bytes)]
  | .folder entries => filesOf entries

def filesOf : List (String × FileTree) → List (List String × List Nat)
  | [] => []
  | (name, t) :: rest => (files t).map (fun f => (name :: f.1, f.2)) ++ filesOf rest
end

/-- Paths are ordered name by name. -/
def pathLE (a b : List String × List Nat) : Bool := (compare a.1 b.1).isLE

def sortedFiles (t : FileTree) : List (List String × List Nat) := t.files.mergeSort pathLE

/-- Puts a tree where names lead to, with folders on the way. -/
def put (t : FileTree) : List String → FileTree → FileTree
  | [], _ => t
  | name :: names, .folder entries =>
      let old := (entries.lookup name).getD (.folder [])
      .folder ((name, put t names old) :: entries.filter fun e => e.1 != name)
  | name :: names, .file _ => .folder [(name, put t names (.folder []))]

def join (path name : String) : String :=
  if path = "" ∨ path.toList.getLast? = some '/' then path ++ name else path ++ "/" ++ name

def joinAll (path : String) (names : List String) : String := names.foldl join path

/-- The text after the last dot of a name, unless that dot comes first. -/
def extension? (name : String) : Option String :=
  let back := name.toList.reverse
  match back.dropWhile (· ≠ '.') with
  | _ :: _ :: _ => some (String.ofList (back.takeWhile (· ≠ '.')).reverse)
  | _ => none

end FileTree

/-- All files at hand, and the working directory as a path from the root. -/
structure Files where
  cwd : String
  root : FileTree

namespace Files

def namesTo (files : Files) (path : String) : List String :=
  let names := Text.split '/' path
  if path.toList.head? = some '/' then names else Text.split '/' files.cwd ++ names

/-- What a path leads to. The empty path leads nowhere. -/
def find? (files : Files) (path : String) : Option FileTree :=
  if path = "" then none else files.root.walk (files.namesTo path)

def exists? (files : Files) (path : String) : Bool := (files.find? path).isSome

def text? (files : Files) (path : String) : Option String :=
  match files.find? path with
  | some (.file bytes) => (Text.ofBytes? bytes).map String.ofList
  | _ => none

end Files
end ChangeReport
