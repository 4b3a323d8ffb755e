/-! Edit scripts between two sequences, found by meeting in the middle: a search from both
ends takes one more edit at each step along every diagonal, and the point where the two
meet splits the problem. -/
namespace ChangeReport.LineDiff

inductive EditKind where
  | keep
  | delete
  | insert
  | replace
deriving DecidableEq, Repr

/-- One step of a script: `oldLength` elements from `oldStart` on become `newLength`
elements from `newStart` on. -/
structure Edit where
  kind : EditKind
  oldStart : Nat
  oldLength : Nat
  newStart : Nat
  newLength : Nat
deriving DecidableEq, Repr

namespace Edit

def keep (oldStart newStart length : Nat) : Edit := ⟨.keep, oldStart, length, newStart, length⟩

def delete (oldStart oldLength newStart : Nat) : Edit := ⟨.delete, oldStart, oldLength, newStart, 0⟩

def insert (oldStart newStart newLength : Nat) : Edit := ⟨.insert, oldStart, 0, newStart, newLength⟩

def oldEnd (e : Edit) : Nat := e.oldStart + e.oldLength

def newEnd (e : Edit) : Nat := e.newStart + e.newLength

def isEmpty (e : Edit) : Bool := e.oldLength == 0 && e.newLength == 0

end Edit

structure Region where
  oldStart : Nat
  oldEnd : Nat
  newStart : Nat
  newEnd : Nat

namespace Region

def oldLength (r : Region) : Nat := r.oldEnd - r.oldStart

def newLength (r : Region) : Nat := r.newEnd - r.newStart

end Region

section Search

variable {α : Type} [BEq α]

/-- How many elements agree from two positions on, at most `limit`. -/
def commonStart (old new : Array α) (i j : Nat) : Nat → Nat
  | 0 => 0
  | limit + 1 =>
      match old[i]?, new[j]? with
      | some a, some b => if a == b then commonStart old new (i + 1) (j + 1) limit + 1 else 0
      | _, _ => 0

def commonEnd (old new : Array α) : Nat → Nat → Nat → Nat
  | i + 1, j + 1, limit + 1 =>
      match old[i]?, new[j]? with
      | some a, some b => if a == b then commonEnd old new i j limit + 1 else 0
      | _, _ => 0
  | _, _, _ => 0

/-- How far each diagonal has been followed. Diagonals are numbered from `-offset` on. -/
structure Frontier where
  offset : Nat
  reach : Array Nat

namespace Frontier

def start (size : Nat) : Frontier := ⟨size + 1, Array.replicate (2 * size + 3) 0⟩

def get (f : Frontier) (k : Int) : Nat := f.reach.getD (k + f.offset).toNat 0

def set (f : Frontier) (k : Int) (x : Nat) : Frontier :=
  { f with reach := f.reach.setIfInBounds (k + f.offset).toNat x }

/-- Where a path of `d` edits gets on diagonal `k`, before elements that agree: from the
diagonal above or below, whichever is further along. -/
def next (f : Frontier) (d : Nat) (k : Int) : Nat :=
  if k = -(d : Int) ∨ (k ≠ (d : Int) ∧ f.get (k - 1) < f.get (k + 1)) then f.get (k + 1)
  else f.get (k - 1) + 1

end Frontier

/-- The diagonals that a path of `d` edits can end on. -/
def diagonals (d : Nat) : List Int := (List.range (d + 1)).map fun (i : Nat) => (d : Int) - 2 * (i : Int)

/-- A step of the search: it goes on with a frontier, or it has met the other search at a
point. -/
inductive Step where
  | onward (f : Frontier)
  | met (oldAt newAt : Nat)

/-- One edit more from the start of the region. With an odd difference of lengths this
side sees the meeting. -/
def forward (old new : Array α) (r : Region) (back : Frontier) (d : Nat) : List Int → Frontier → Step
  | [], f => .onward f
  | k :: ks, f =>
      let n := r.oldLength
      let m := r.newLength
      let delta : Int := (n : Int) - (m : Int)
      let x0 := f.next d k
      let y0 := ((x0 : Int) - k).toNat
      let x :=
        if x0 < n ∧ y0 < m then
          x0 + commonStart old new (r.oldStart + x0) (r.newStart + y0) (min (n - x0) (m - y0))
        else x0
      if delta % 2 ≠ 0 ∧ (k - delta).natAbs + 1 ≤ d ∧ n ≤ x + back.get (delta - k) then
        .met (r.oldStart + x0) (r.newStart + y0)
      else forward old new r back d ks (f.set k x)

/-- One edit more from the end of the region. With an even difference of lengths this side
sees the meeting. -/
def backward (old new : Array α) (r : Region) (front : Frontier) (d : Nat) : List Int → Frontier → Step
  | [], f => .onward f
  | k :: ks, f =>
      let n := r.oldLength
      let m := r.newLength
      let delta : Int := (n : Int) - (m : Int)
      let x0 := f.next d k
      let y0 := ((x0 : Int) - k).toNat
      let same :=
        if x0 < n ∧ y0 < m then
          commonEnd old new (r.oldStart + n - x0) (r.newStart + m - y0) (min (n - x0) (m - y0))
        else 0
      let x := x0 + same
      if delta % 2 = 0 ∧ (k - delta).natAbs ≤ d ∧ n ≤ x + front.get (delta - k) then
        .met (r.oldStart + (n - x)) (r.newStart + (m - (y0 + same)))
      else backward old new r front d ks (f.set k x)

/-- The point where the two searches meet, after at most `fuel` steps from `d` on. -/
def meeting? (old new : Array α) (r : Region) : Nat → Nat → Frontier → Frontier → Option (Nat × Nat)
  | 0, _, _, _ => none
  | fuel + 1, d, front, back =>
      match forward old new r back d (diagonals d) front with
      | .met i j => some (i, j)
      | .onward front =>
          match backward old new r front d (diagonals d) back with
          | .met i j => some (i, j)
          | .onward back => meeting? old new r fuel (d + 1) front back

def searchDepth (n m : Nat) : Nat := (n + m + 1) / 2 + 1

/-- The edits of a region. Elements that agree at its two ends are kept first. Every split
is strictly smaller, so fuel beyond the size of the region is never used up. -/
def editsWithin (old new : Array α) : Nat → Region → List Edit
  | 0, _ => []
  | fuel + 1, whole =>
      let head := commonStart old new whole.oldStart whole.newStart (min whole.oldLength whole.newLength)
      let cut := { whole with oldStart := whole.oldStart + head, newStart := whole.newStart + head }
      let tail := commonEnd old new cut.oldEnd cut.newEnd (min cut.oldLength cut.newLength)
      let r := { cut with oldEnd := cut.oldEnd - tail, newEnd := cut.newEnd - tail }
      let inner :=
        if r.oldLength = 0 ∧ r.newLength = 0 then []
        else if r.newLength = 0 then [Edit.delete r.oldStart r.oldLength r.newStart]
        else if r.oldLength = 0 then [Edit.insert r.oldStart r.newStart r.newLength]
        else
          let depth := searchDepth r.oldLength r.newLength
          match meeting? old new r depth 0 (.start depth) (.start depth) with
          | some (i, j) =>
              editsWithin old new fuel { r with oldEnd := i, newEnd := j } ++
                editsWithin old new fuel { r with oldStart := i, newStart := j }
          | none =>
              [Edit.delete r.oldStart r.oldLength r.newStart,
                Edit.insert r.oldStart r.newStart r.newLength]
      (if head = 0 then [] else [Edit.keep whole.oldStart whole.newStart head]) ++ inner ++
        (if tail = 0 then [] else [Edit.keep r.oldEnd r.newEnd tail])

/-- A script of kept, deleted and inserted runs that turns `old` into `new`. -/
def edits (old new : Array α) : List Edit :=
  editsWithin old new (old.size + new.size + 1) ⟨0, old.size, 0, new.size⟩

end Search
end ChangeReport.LineDiff
