import ChangeReport.LineDiff.Lines
import ChangeReport.LineDiff.Slide

/-! Unified diffs: groups of changes with a few kept lines around them, each under a
header with the ranges of lines it covers. -/
namespace ChangeReport.LineDiff

def contextLines : Nat := 2

/-- Leaves only the last `n` elements of a kept run. -/
def Edit.keepLast (n : Nat) (e : Edit) : Edit := (e.shiftOn (e.oldLength - n)).shrink (e.oldLength - n)

/-- Leaves only the first `n` elements of a kept run. -/
def Edit.keepFirst (n : Nat) (e : Edit) : Edit := e.shrink (e.oldLength - n)

def trimFirst (n : Nat) : List Edit → List Edit
  | e :: rest => (if e.kind = .keep then e.keepLast n else e) :: rest
  | [] => []

def trimLast (n : Nat) : List Edit → List Edit
  | [] => []
  | [e] => [if e.kind = .keep then e.keepFirst n else e]
  | e :: rest => e :: trimLast n rest

/-- Cuts a script at its long kept runs; `group` is the group under way, last edit first.
-/
def cutGroups (n : Nat) : List Edit → List Edit → List (List Edit)
  | group, [] => [group.reverse]
  | group, e :: rest =>
      if e.kind = .keep ∧ 2 * n < e.oldLength then
        ({ e with oldLength := n, newLength := n } :: group).reverse :: cutGroups n [e.keepLast n] rest
      else cutGroups n (e :: group) rest

def hasChange (group : List Edit) : Bool :=
  match group with
  | [] => false
  | [e] => e.kind != .keep
  | _ => true

/-- The groups of changes of a script with `n` lines of context. -/
def groups (n : Nat) (script : List Edit) : List (List Edit) :=
  if script = [] then []
  else
    let all := cutGroups n [] (trimLast n (trimFirst n script))
    all.dropLast ++ (all.getLast?.filter hasChange).toList

/-- A range of lines: its first line, and its length unless that is one. An empty range is
named by the line before it. -/
def renderRange (start stop : Nat) : List Char :=
  let length := stop - start
  if length = 1 then (toString (start + 1)).toList
  else
    let first := if length = 0 then start else start + 1
    (toString first).toList ++ ',' :: (toString length).toList

def header (first last : Edit) : List Char :=
  ['@', '@', ' ', '-'] ++ renderRange first.oldStart last.oldEnd ++ [' ', '+'] ++
    renderRange first.newStart last.newEnd ++ [' ', '@', '@', '\n']

def noNewline : List Char := "\n\\ No newline at end of file\n".toList

def renderLine (mark : Char) (line : Line) : List Char :=
  mark :: (line ++ if isEnded line then [] else noNewline)

def slice (ls : Array Line) (start length : Nat) : List Line := (ls.extract start (start + length)).toList

/-- The lines of an edit: kept ones, or deleted ones before inserted ones. -/
def renderEdit (old new : Array Line) (e : Edit) : List Char :=
  if e.kind = .keep then (slice old e.oldStart e.oldLength).flatMap (renderLine ' ')
  else (slice old e.oldStart e.oldLength).flatMap (renderLine '-') ++
    (slice new e.newStart e.newLength).flatMap (renderLine '+')

def renderGroup (old new : Array Line) (group : List Edit) : List Char :=
  match group, group.getLast? with
  | first :: rest, some last => header first last ++ (first :: rest).flatMap (renderEdit old new)
  | _, _ => []

/-- The unified diff of two texts, without names of files. -/
def unified (old new : String) : String :=
  let a := (lines old.toList).toArray
  let b := (lines new.toList).toArray
  String.ofList ((groups contextLines (script a b)).flatMap (renderGroup a b))

end ChangeReport.LineDiff
