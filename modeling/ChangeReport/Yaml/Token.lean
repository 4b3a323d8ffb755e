import ChangeReport.Text.Bytes
import ChangeReport.Yaml.Cursor
import ChangeReport.Yaml.Scalar

/-! The tokens of YAML, and the reading of names, tags and directives. Tags are bytes,
because their escapes spell bytes. -/
namespace ChangeReport.Yaml

inductive Token where
  | version (major minor : Nat)
  | tagHandle (handle : List Char) (stem : List Nat)
  | documentStart
  | documentEnd
  | streamEnd
  | blockSequenceStart
  | blockMappingStart
  | blockEnd
  | flowSequenceStart
  | flowSequenceEnd
  | flowMappingStart
  | flowMappingEnd
  | blockEntry
  | flowEntry
  | key
  | value
  | alias (name : List Char)
  | anchor (name : List Char)
  | tag (handle : List Char) (suffix : List Nat)
  | scalar (plain : Bool) (text : List Char)
deriving DecidableEq, Repr

def isNameChar (c : Char) : Bool := c.isAlphanum || c == '-' || c == '_'

def anchorEnds : List Char := ['?', ':', ',', ']', '\x7d', '%', '@', '\x60']

/-- The name after the mark of an anchor or an alias. -/
def anchorName? (c : Cursor) : Option (List Char × Cursor) :=
  let (name, c) := (c.skip 1).span isNameChar
  if name.isEmpty || !(gapNext c.rest || c.next anchorEnds.contains) then none else some (name, c)

def tagMarks : List Char :=
  [';', '/', '?', ':', '@', '&', '=', '+', '$', '.', '%', '!', '~', '*', '\'', '(', ')']

def isTagChar (verbatim : Bool) (c : Char) : Bool :=
  isNameChar c || tagMarks.contains c || (verbatim && (c == ',' || c == '[' || c == ']'))

/-- The length of a sequence of bytes that begins with `n`. -/
def sequenceLength? (n : Nat) : Option Nat :=
  if n < 0x80 then some 1
  else if 0xC0 ≤ n ∧ n < 0xE0 then some 2
  else if 0xE0 ≤ n ∧ n < 0xF0 then some 3
  else if 0xF0 ≤ n ∧ n < 0xF8 then some 4
  else none

def escapedByte? : List Char → Option (Nat × List Char)
  | '%' :: a :: b :: rest => do
      let high ← digit? 16 a
      let low ← digit? 16 b
      return (high * 16 + low, rest)
  | _ => none

/-- Further escaped bytes of one character. -/
def escapedTail? : Nat → List Char → Option (List Nat × List Char)
  | 0, cs => some ([], cs)
  | n + 1, cs => do
      let (b, rest) ← escapedByte? cs
      guard (0x80 ≤ b ∧ b < 0xC0)
      let (bs, rest) ← escapedTail? n rest
      return (b :: bs, rest)

def escapedChar? (cs : List Char) : Option (List Nat × List Char) := do
  let (b, rest) ← escapedByte? cs
  let n ← sequenceLength? b
  let (bs, rest) ← escapedTail? (n - 1) rest
  return (b :: bs, rest)

/-- The bytes of the characters of a tag. -/
def tagBytes? (verbatim : Bool) : Nat → List Nat → Cursor → Option (List Nat × Cursor)
  | 0, bytes, c => some (bytes, c)
  | fuel + 1, bytes, c =>
      match c.rest with
      | [] => some (bytes, c)
      | ch :: _ =>
          if !isTagChar verbatim ch then some (bytes, c)
          else if ch = '%' then do
            let (bs, rest) ← escapedChar? c.rest
            tagBytes? verbatim fuel (bytes ++ bs) (c.skip (c.rest.length - rest.length))
          else tagBytes? verbatim fuel (bytes ++ Text.charBytes ch) (c.skip 1)

/-- The characters of a tag behind what has been read of it; they may be missing only when
`head` stands before. -/
def tagSuffix? (verbatim : Bool) (head : List Char) (c : Cursor) : Option (List Nat × Cursor) := do
  let (bytes, after) ← tagBytes? verbatim c.rest.length [] c
  guard (!head.isEmpty || after.index ≠ c.index)
  return (Text.toBytes (head.drop 1) ++ bytes, after)

/-- An exclamation mark, a name, and an exclamation mark if one follows. -/
def tagHandle? (c : Cursor) : Option (List Char × Cursor) := do
  guard (c.next (· == '!'))
  let (name, c) := (c.skip 1).span isNameChar
  if c.next (· == '!') then return ('!' :: (name ++ ['!']), c.skip 1) else return ('!' :: name, c)

/-- A tag: verbatim between angle brackets, with a named handle, or local. A lone mark has
the empty handle. -/
def tagParts? (c : Cursor) : Option (List Char × List Nat × Cursor) :=
  match c.rest with
  | '!' :: '<' :: _ => do
      let (suffix, c) ← tagSuffix? true [] (c.skip 2)
      guard (c.next (· == '>'))
      return ([], suffix, c.skip 1)
  | _ => do
      let (handle, after) ← tagHandle? c
      if 2 ≤ handle.length ∧ handle.getLast? = some '!' then
        let (suffix, after) ← tagSuffix? false [] after
        return (handle, suffix, after)
      else
        let (suffix, after) ← tagSuffix? false handle after
        if suffix.isEmpty then return ([], ['!'.toNat], after) else return (['!'], suffix, after)

def tag? (inFlow : Bool) (c : Cursor) : Option (Token × Cursor) := do
  let (handle, suffix, c) ← tagParts? c
  guard ((inFlow && c.next (· == ',')) || gapNext c.rest)
  return (.tag handle suffix, c)

/-- A number of a version has at most this many digits. -/
def maxVersionDigits : Nat := 9

def versionNumber? (c : Cursor) : Option (Nat × Cursor) := do
  let (digits, c) := c.span Char.isDigit
  guard (digits.length ≤ maxVersionDigits)
  let n ← natural? 10 digits
  return (n, c)

/-- The two directives: the version of the format, and the meaning of a tag handle. -/
def directive? (c : Cursor) : Option (Token × Cursor) := do
  let (name, c) := (c.skip 1).span isNameChar
  guard (!name.isEmpty && gapNext c.rest)
  let c := c.skipBlanks
  if name = "YAML".toList then
    let (major, c) ← versionNumber? c
    guard (c.next (· == '.'))
    let (minor, c) ← versionNumber? (c.skip 1)
    return (.version major minor, ← c.endLine?)
  else if name = "TAG".toList then
    let (handle, c) ← tagHandle? c
    guard (handle = ['!'] ∨ handle.getLast? = some '!')
    guard (c.next isBlank)
    let (stem, c) ← tagSuffix? true [] c.skipBlanks
    guard (gapNext c.rest)
    return (.tagHandle handle stem, ← c.endLine?)
  else none

end ChangeReport.Yaml
