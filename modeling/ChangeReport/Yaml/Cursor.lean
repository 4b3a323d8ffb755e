import ChangeReport.Text.Split
import ChangeReport.Yaml.Character

/-! A place in YAML text, and the blanks and line breaks inside scalars. -/
namespace ChangeReport.Yaml

/-- The rest of a text with its place: characters from the start, line, and characters
from the start of the line. -/
structure Cursor where
  rest : List Char
  index : Nat
  line : Nat
  column : Nat

namespace Cursor

def start (cs : List Char) : Cursor := ⟨cs, 0, 0, 0⟩

def next (c : Cursor) (p : Char → Bool) : Bool := c.rest.head?.any p

def skip (n : Nat) (c : Cursor) : Cursor :=
  let k := min n c.rest.length
  ⟨c.rest.drop n, c.index + k, c.line, c.column + k⟩

/-- The characters of one line that satisfy `p`, and the place after them. -/
def span (p : Char → Bool) (c : Cursor) : List Char × Cursor :=
  let taken := c.rest.takeWhile p
  (taken, ⟨c.rest.dropWhile p, c.index + taken.length, c.line, c.column + taken.length⟩)

/-- Steps over a line break; a carriage return and a line feed are one. -/
def skipBreak (c : Cursor) : Cursor :=
  match c.rest with
  | '\r' :: '\n' :: rest => ⟨rest, c.index + 2, c.line + 1, 0⟩
  | b :: rest => if isBreak b then ⟨rest, c.index + 1, c.line + 1, 0⟩ else c
  | [] => c

/-- What a line break stands for within a scalar: a line feed, or one of the two
separators itself. -/
def breakText (c : Cursor) : List Char :=
  match c.rest with
  | b :: _ => if b = '\u2028' ∨ b = '\u2029' then [b] else if isBreak b then ['\n'] else []
  | [] => []

def skipBlanks (c : Cursor) : Cursor := (c.span isBlank).2

def skipComment (c : Cursor) : Cursor :=
  if c.next (· == '#') then (c.span fun ch => !isBreak ch).2 else c

/-- Steps over the rest of a line that holds nothing but a comment. -/
def endLine? (c : Cursor) : Option Cursor :=
  let c := c.skipBlanks.skipComment
  if c.rest.isEmpty then some c
  else if c.next isBreak then some c.skipBreak
  else none

/-- Three dashes or three dots at the start of a line separate documents. -/
def atMark (m : Char) (c : Cursor) : Bool :=
  c.column == 0 && Text.startsWith [m, m, m] c.rest && gapNext (c.rest.drop 3)

def atDocumentMark (c : Cursor) : Bool := c.atMark '-' || c.atMark '.'

end Cursor

/-- Blanks and breaks between two words of a scalar: the blanks before a break, the first
break and the others. -/
structure Gap where
  spaces : List Char
  leading : List Char
  trailing : List Char
  broken : Bool

namespace Gap

/-- A gap that has not begun, or one behind an escaped break. -/
def start (broken : Bool) : Gap := ⟨[], [], [], broken⟩

/-- Breaks between words: a single line feed becomes a blank, and of several the first one
is dropped. -/
def fold (leading trailing : List Char) : List Char :=
  if leading = ['\n'] then if trailing.isEmpty then [' '] else trailing else leading ++ trailing

def text (g : Gap) : List Char := if g.broken then fold g.leading g.trailing else g.spaces

def addBlank (ch : Char) (g : Gap) : Gap := if g.broken then g else { g with spaces := g.spaces ++ [ch] }

def addBreak (b : List Char) (g : Gap) : Gap :=
  if g.broken then { g with trailing := g.trailing ++ b } else { g with spaces := [], leading := b, broken := true }

/-- Reads on to the next character that is no gap. A tab in the first `indent` columns of
a later line is refused. -/
def read (indent : Nat) : Nat → Gap → Cursor → Option (Gap × Cursor)
  | 0, g, c => some (g, c)
  | fuel + 1, g, c =>
      match c.rest with
      | [] => some (g, c)
      | ch :: _ =>
          if isBlank ch then
            if g.broken ∧ c.column < indent ∧ ch = '\t' then none
            else read indent fuel (g.addBlank ch) (c.skip 1)
          else if isBreak ch then read indent fuel (g.addBreak c.breakText) c.skipBreak
          else some (g, c)

end Gap
end ChangeReport.Yaml
