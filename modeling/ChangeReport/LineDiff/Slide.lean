import ChangeReport.LineDiff.Edit

/-! Tidying an edit script. An insertion moves over kept elements as long as these agree
with its own end, first up and then down, and neighbours of one kind join. A script under
work is a position in it: the edits before, nearest first, the edit itself, and the edits
after it. -/
namespace ChangeReport.LineDiff

namespace Edit

def shiftBack (n : Nat) (e : Edit) : Edit := { e with oldStart := e.oldStart - n, newStart := e.newStart - n }

def shiftOn (n : Nat) (e : Edit) : Edit := { e with oldStart := e.oldStart + n, newStart := e.newStart + n }

def shrink (n : Nat) (e : Edit) : Edit := { e with oldLength := e.oldLength - n, newLength := e.newLength - n }

def join (e other : Edit) : Edit :=
  { e with oldLength := e.oldLength + other.oldLength, newLength := e.newLength + other.newLength }

def weight (e : Edit) : Nat := e.oldLength + 1

end Edit

def weight (script : List Edit) : Nat := script.foldr (fun e n => e.weight + n) 0

structure Position where
  before : List Edit
  here : Edit
  after : List Edit

section Moves

variable {α : Type} [BEq α]

/-- Gives `n` kept elements to the run after the position. -/
def keepAfter (n oldStart newStart : Nat) : List Edit → List Edit
  | [] => [Edit.keep oldStart newStart n]
  | e :: rest =>
      if e.kind = .keep then { e.shiftBack n with oldLength := e.oldLength + n, newLength := e.newLength + n } :: rest
      else Edit.keep oldStart newStart n :: e :: rest

/-- Gives `n` kept elements to the run before the position. -/
def keepBefore (n oldStart newStart : Nat) : List Edit → List Edit
  | [] => [Edit.keep oldStart newStart n]
  | e :: rest =>
      if e.kind = .keep then { e with oldLength := e.oldLength + n, newLength := e.newLength + n } :: rest
      else Edit.keep oldStart newStart n :: e :: rest

/-- The last elements of a kept run that agree with the end of an insertion. A deletion
never moves. -/
def slideBack (old new : Array α) (kept moved : Edit) : Nat :=
  commonEnd old new kept.oldEnd moved.newEnd (min kept.oldLength moved.newLength)

/-- The first elements of a kept run that agree with the start of an insertion. -/
def slideOn (old new : Array α) (kept moved : Edit) : Nat :=
  commonStart old new kept.oldStart moved.newStart (min kept.oldLength moved.newLength)

def moveUp (old new : Array α) : Nat → Position → Position
  | 0, p => p
  | _ + 1, ⟨[], here, after⟩ => ⟨[], here, after⟩
  | fuel + 1, ⟨e :: before, here, after⟩ =>
      if e.kind = .keep then
        let n := slideBack old new e here
        if n = 0 then
          if e.isEmpty then moveUp old new fuel ⟨before, here, after⟩ else ⟨e :: before, here, after⟩
        else
          let after := keepAfter n (e.oldEnd - n) (here.newEnd - n) after
          let left := e.shrink n
          moveUp old new fuel ⟨if left.isEmpty then before else left :: before, here.shiftBack n, after⟩
      else if e.kind = here.kind then moveUp old new fuel ⟨before, e.join here, after⟩
      else moveUp old new fuel ⟨before, here, e :: after⟩

def moveDown (old new : Array α) : Nat → Position → Position
  | 0, p => p
  | _ + 1, ⟨before, here, []⟩ => ⟨before, here, []⟩
  | fuel + 1, ⟨before, here, e :: after⟩ =>
      if e.kind = .keep then
        let n := slideOn old new e here
        if n = 0 then
          if e.isEmpty then moveDown old new fuel ⟨before, here, after⟩ else ⟨before, here, e :: after⟩
        else
          let before := keepBefore n e.oldStart here.newStart before
          let left := (e.shiftOn n).shrink n
          moveDown old new fuel ⟨before, here.shiftOn n, if left.isEmpty then after else left :: after⟩
      else if e.kind = here.kind then moveDown old new fuel ⟨before, here.join e, after⟩
      else moveDown old new fuel ⟨e :: before, here, after⟩

def slideKind (old new : Array α) (kind : EditKind) : Nat → List Edit → List Edit → List Edit
  | 0, done, rest => done.reverse ++ rest
  | _ + 1, done, [] => done.reverse
  | fuel + 1, done, e :: rest =>
      if e.kind = kind then
        let up := moveUp old new (weight done) ⟨done, e, rest⟩
        let p := moveDown old new (weight up.after) up
        slideKind old new kind fuel (p.here :: p.before) p.after
      else slideKind old new kind fuel (e :: done) rest

/-- The script with its deletions joined and its insertions moved. Every pass over an edit
leaves less to do, so the weight of the script is fuel enough. -/
def slide (old new : Array α) (script : List Edit) : List Edit :=
  let deleted := slideKind old new .delete (weight script + 1) [] script
  slideKind old new .insert (weight deleted + 1) [] deleted

end Moves

/-- The edits between two kept runs as one: a deletion and an insertion become a
replacement. -/
structure Pending where
  deleted : Option Edit
  inserted : Option Edit

def Pending.flush : Pending → List Edit
  | ⟨some d, some i⟩ => [⟨.replace, d.oldStart, d.oldLength, i.newStart, i.newLength⟩]
  | ⟨some d, none⟩ => [d]
  | ⟨none, some i⟩ => [i]
  | ⟨none, none⟩ => []

def joinOnto : Option Edit → Edit → Edit
  | none, e => e
  | some d, e => d.join e

/-- Joins runs of kept elements and pairs deletions with insertions; `kept` is the run
that may still grow. -/
def pairUp : Option Edit → Pending → List Edit → List Edit
  | kept, p, [] => kept.toList ++ p.flush
  | kept, p, e :: rest =>
      match e.kind with
      | .keep => p.flush ++ pairUp (some (joinOnto kept e)) ⟨none, none⟩ rest
      | .delete => kept.toList ++ pairUp none { p with deleted := some (joinOnto p.deleted e) } rest
      | .insert => kept.toList ++ pairUp none { p with inserted := some (joinOnto p.inserted e) } rest
      | .replace => kept.toList ++ e :: pairUp none p rest

def script {α : Type} [BEq α] (old new : Array α) : List Edit :=
  pairUp none ⟨none, none⟩ (slide old new (edits old new))

end ChangeReport.LineDiff
