import ChangeReport.Document
import ChangeReport.Number.Shortest
import ChangeReport.Text.Bytes
import ChangeReport.Yaml.Character
import ChangeReport.Yaml.Scalar

/-! The canonical YAML text of a document: one entry a line, fields in their sorted order,
two more blanks for each level, no folded lines. Texts are plain where that is
unambiguous; otherwise they are quoted, or blocks of lines when they hold a line feed. -/
namespace ChangeReport.Yaml

inductive Style where
  | plain
  | single
  | double
  | literal
deriving DecidableEq, Repr

/-- Whether two neighbours satisfy `p` and `q`. -/
def hasNeighbours (p q : Char → Bool) : List Char → Bool
  | a :: b :: rest => (p a && q b) || hasNeighbours p q (b :: rest)
  | _ => false

def isSpace (c : Char) : Bool := c == ' '

def openingMarks : List Char :=
  ['#', ',', '[', ']', '\x7b', '\x7d', '&', '*', '!', '|', '>', '\'', '"', '%', '@', '\x60']

/-- Marks after the first character that end a plain text: a colon before a gap, a number
sign after one. -/
def hasInnerMark : Char → List Char → Bool
  | _, [] => false
  | before, c :: rest =>
      (c == ':' && gapNext rest) || (c == '#' && isGap before) || hasInnerMark c rest

def hasMarks : List Char → Bool
  | [] => false
  | c :: rest =>
      Text.startsWith ['-', '-', '-'] (c :: rest) || Text.startsWith ['.', '.', '.'] (c :: rest) ||
        openingMarks.contains c || ((c == '?' || c == ':' || c == '-') && gapNext rest) || hasInnerMark c rest

def isMultiline (cs : List Char) : Bool := cs.any isBreak

/-- Characters or blanks that only escapes keep. -/
def needsEscapes (cs : List Char) : Bool :=
  hasNeighbours isSpace isBreak cs || !cs.all isPrintable

def isEdge (p : Char → Bool) (cs : List Char) : Bool := cs.head?.any p || cs.getLast?.any p

def plainAllowed (cs : List Char) : Bool :=
  !(isEdge isSpace cs || isMultiline cs || needsEscapes cs || hasMarks cs)

def singleAllowed (cs : List Char) : Bool :=
  !(hasNeighbours isBreak isSpace cs || needsEscapes cs)

def literalAllowed (cs : List Char) : Bool :=
  cs != [] && !(cs.getLast?.any isSpace || needsEscapes cs)

/-- The style of a text. Within a line, `inLine`, there are no blocks. -/
def styleOf (inLine : Bool) (s : String) : Style :=
  let cs := s.toList
  if cs.contains '\n' then if literalAllowed cs && !inLine then .literal else .double
  else if inLine && isMultiline cs then .double
  else if !isMistakable s && plainAllowed cs then .plain
  else if singleAllowed cs then .single
  else .double

def hexUpper (n : Nat) : Char := if n < 10 then Char.ofNat (48 + n) else Char.ofNat (55 + n)

/-- The lowest `width` digits of a number in base 16. -/
def hexDigits : Nat → Nat → List Char
  | 0, _ => []
  | width + 1, n => hexDigits width (n / 16) ++ [hexUpper (n % 16)]

def shortEscapes : List (Char × Char) :=
  [('\x00', '0'), ('\x07', 'a'), ('\x08', 'b'), ('\t', 't'), ('\n', 'n'), ('\x0b', 'v'), ('\x0c', 'f'),
   ('\r', 'r'), ('\x1b', 'e'), ('"', '"'), ('\\', '\\'), ('\u0085', 'N'), ('\u2028', 'L'), ('\u2029', 'P')]

def escape (c : Char) : List Char :=
  match shortEscapes.lookup c with
  | some e => ['\\', e]
  | none =>
      if isPrintable c then [c]
      else if c.toNat ≤ 0xFF then '\\' :: 'x' :: hexDigits 2 c.toNat
      else if c.toNat ≤ 0xFFFF then '\\' :: 'u' :: hexDigits 4 c.toNat
      else '\\' :: 'U' :: hexDigits 8 c.toNat

def blanks (n : Nat) : List Char := List.replicate n ' '

/-- Text between single quotes: a quote is written twice, and what follows a break is
indented. -/
def singleBody (indent : Nat) : Bool → List Char → List Char
  | afterBreak, [] => if afterBreak then blanks indent else []
  | afterBreak, c :: rest =>
      if isBreak c then c :: singleBody indent true rest
      else (if afterBreak then blanks indent else []) ++
        (if c = '\'' then ['\'', '\''] else [c]) ++ singleBody indent false rest

/-- The lines of a block: each one that holds text is indented. -/
def literalBody (indent : Nat) : Bool → List Char → List Char
  | _, [] => []
  | atStart, c :: rest =>
      if isBreak c then c :: literalBody indent true rest
      else (if atStart then blanks indent else []) ++ c :: literalBody indent false rest

/-- What follows the mark of a block: the indentation when its first line begins with a
blank or is empty, and how the text ends, without a break (`-`) or with several (`+`). -/
def literalHints (cs : List Char) : List Char :=
  let first := if cs.head?.any fun c => isSpace c || isBreak c then ['2'] else []
  let last := match cs.reverse with
    | [] => ['-']
    | [c] => if isBreak c then ['+'] else ['-']
    | c :: d :: _ => if !isBreak c then ['-'] else if isBreak d then ['+'] else []
  first ++ last

/-- The text of a string, whose later lines are indented by `indent`. -/
def renderText (inLine : Bool) (indent : Nat) (s : String) : List Char :=
  let cs := s.toList
  match styleOf inLine s with
  | .plain => cs
  | .single => '\'' :: (singleBody indent false cs ++ ['\''])
  | .double => '"' :: (cs.flatMap escape ++ ['"'])
  | .literal => '|' :: (literalHints cs ++ '\n' :: literalBody indent true cs)

/-- Ends the line that a text is on, unless its last line is a block line that has ended.
-/
def endLine (s : String) (text : List Char) : List Char :=
  if styleOf false s = .literal ∧ s.toList.getLast?.any isBreak then text else text ++ ['\n']

/-- Keys of more bytes, or of several lines, are marked by `?` and stand on lines of their
own. -/
def maxKeyLength : Nat := 128

def isSimpleKey (s : String) : Bool :=
  !isMultiline s.toList && Text.byteLength s.toList ≤ maxKeyLength

/-- Floats are positional from `10 ^ -5` up to `10 ^ 16`; a positive exponent has no sign.
-/
def floatLayout : Binary64.FloatLayout := ⟨16, 5, false⟩

def renderNumber : Number → String
  | .int n => toString n
  | .float x => x.render floatLayout

/-- What a document stands behind: a dash (or the marks of a long key), or the colon of
its key. -/
inductive Place where
  | dash
  | colon
deriving DecidableEq, Repr

/-- What comes before the entries of a collection: entries behind a dash begin on its
line. -/
def Place.opening : Place → List Char
  | .dash => [' ']
  | .colon => ['\n']

/-- Where items stand: below the key, or two blanks behind a dash. -/
def Place.itemIndent (p : Place) (outer : Nat) : Nat :=
  match p with
  | .dash => outer + 2
  | .colon => outer

mutual
/-- A document behind a mark, up to the end of its last line. The entry with the mark
stands at `outer`. -/
def renderNode (place : Place) (outer : Nat) : Document → List Char
  | .null => [' ', 'n', 'u', 'l', 'l', '\n']
  | .bool b => ' ' :: ((toString b).toList ++ ['\n'])
  | .number n => ' ' :: ((renderNumber n).toList ++ ['\n'])
  | .string s => ' ' :: endLine s (renderText false (outer + 2) s)
  | .array items =>
      if items.isEmpty then [' ', '[', ']', '\n']
      else place.opening ++ renderItems (place = .dash) (place.itemIndent outer) items
  | .object fields =>
      if fields.isEmpty then [' ', '\x7b', '\x7d', '\n']
      else place.opening ++ renderFields (place = .dash) (outer + 2) fields

/-- The items of a sequence; the first one may continue the line it is on. -/
def renderItems (continued : Bool) (indent : Nat) : List Document → List Char
  | [] => []
  | d :: rest =>
      (if continued then [] else blanks indent) ++ '-' :: renderNode .dash indent d ++
        renderItems false indent rest

/-- The fields of a mapping; the first one may continue the line it is on. -/
def renderFields (continued : Bool) (indent : Nat) : List (String × Document) → List Char
  | [] => []
  | (name, v) :: rest =>
      (if continued then [] else blanks indent) ++
        (if isSimpleKey name then
          renderText true (indent + 2) name ++ ':' :: renderNode .colon indent v
        else
          '?' :: ' ' :: (endLine name (renderText false (indent + 2) name) ++
            blanks indent ++ ':' :: renderNode .dash indent v)) ++
        renderFields false indent rest
end

/-- The canonical text of a document, with collections at the left margin; nothing for an
absent or null one. -/
def canonical : Option Document → String
  | none => ""
  | some .null => ""
  | some (.array (d :: rest)) => String.ofList (renderItems true 0 (d :: rest))
  | some (.object (field :: rest)) => String.ofList (renderFields true 0 (field :: rest))
  | some leaf => String.ofList ((renderNode .dash 0 leaf).drop 1)

end ChangeReport.Yaml
