import ChangeReport.Yaml.Cursor
import ChangeReport.Yaml.Scalar

/-! Block scalars: indented lines after `|`, which are kept, or after `>`, which are
folded. -/
namespace ChangeReport.Yaml

/-- What becomes of the breaks at the end of a block: all but one are cut, all are cut, or
all are kept. -/
inductive Chomping where
  | clip
  | strip
  | keep
deriving DecidableEq, Repr

def chomping? (c : Cursor) : Option (Chomping × Cursor) :=
  match c.rest with
  | '+' :: _ => some (.keep, c.skip 1)
  | '-' :: _ => some (.strip, c.skip 1)
  | _ => none

/-- A digit of indentation; zero is refused. -/
def increment? (c : Cursor) : Option (Option Nat × Cursor) :=
  match c.rest with
  | d :: _ =>
      if !d.isDigit then some (none, c)
      else if d = '0' then none
      else some (digit? 10 d, c.skip 1)
  | [] => some (none, c)

/-- The marks after the mark of a block, in either order. -/
def blockHeader? (c : Cursor) : Option (Chomping × Option Nat × Cursor) :=
  match chomping? c with
  | some (chomping, c) => (increment? c).map fun r => (chomping, r)
  | none => do
      let (increment, c) ← increment? c
      match increment, chomping? c with
      | some n, some (chomping, c) => return (chomping, some n, c)
      | _, _ => return (.clip, increment, c)

/-- Steps over empty lines and the indentation of the next line: the breaks, the widest
indentation met, and the place. With `indent` zero the indentation is still open. -/
def emptyLines (indent : Nat) : Nat → List Char → Nat → Cursor → Option (List Char × Nat × Cursor)
  | 0, breaks, widest, c => some (breaks, widest, c)
  | fuel + 1, breaks, widest, c =>
      let spaces := (c.rest.takeWhile (· == ' ')).length
      let c := c.skip (if indent = 0 then spaces else min spaces (indent - c.column))
      let widest := max widest c.column
      if (indent = 0 ∨ c.column < indent) ∧ c.next (· == '\t') then none
      else if c.next isBreak then emptyLines indent fuel (breaks ++ c.breakText) widest c.skipBreak
      else some (breaks, widest, c)

/-- What has been read of a block: its text, last character first, the break after its
last line, the breaks of the empty lines after that, and whether the last line began with
a blank. -/
structure BlockLines where
  text : List Char
  leading : List Char
  trailing : List Char
  indented : Bool

/-- The break before a line: lines that begin with a blank are not folded. -/
def BlockLines.joint (b : BlockLines) (folded indented : Bool) : List Char :=
  if folded ∧ b.leading = ['\n'] ∧ !b.indented ∧ !indented then
    if b.trailing.isEmpty then [' '] else b.trailing
  else b.leading ++ b.trailing

def blockLines (folded : Bool) (indent : Nat) : Nat → BlockLines → Cursor → Option (BlockLines × Cursor)
  | 0, b, c => some (b, c)
  | fuel + 1, b, c =>
      if c.column ≠ indent ∨ c.rest.isEmpty then some (b, c)
      else do
        let indented := c.next isBlank
        let joint := b.joint folded indented
        let (line, c) := c.span fun ch => !isBreak ch
        let text := line.reverse ++ (joint.reverse ++ b.text)
        let leading := c.breakText
        let c := c.skipBreak
        let (trailing, _, c) ← emptyLines indent (c.rest.length + 1) [] 0 c
        blockLines folded indent fuel ⟨text, leading, trailing, indented⟩ c

/-- A block scalar at its mark. `parent` is the indentation of the block around it, below
zero when there is none. -/
def block? (parent : Int) (c : Cursor) : Option (List Char × Cursor) := do
  let folded := c.next (· == '>')
  let (chomping, increment, c) ← blockHeader? (c.skip 1)
  let c ← c.endLine?
  let given : Nat := match increment with
    | some n => (max parent 0).toNat + n
    | none => 0
  let (trailing, widest, c) ← emptyLines given (c.rest.length + 1) [] 0 c
  let indent := if given = 0 then max (max widest (parent + 1).toNat) 1 else given
  let (b, c) ← blockLines folded indent (c.rest.length + 1) ⟨[], [], trailing, false⟩ c
  let ending := match chomping with
    | .clip => b.leading
    | .strip => []
    | .keep => b.leading ++ b.trailing
  return (b.text.reverse ++ ending, c)

end ChangeReport.Yaml
