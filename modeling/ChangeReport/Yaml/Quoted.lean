import ChangeReport.Yaml.Cursor
import ChangeReport.Yaml.Scalar

/-! Quoted and plain scalars. Lines of a scalar are folded: a break between words becomes
a blank. -/
namespace ChangeReport.Yaml

def simpleEscapes : List (Char × Char) :=
  [('0', '\x00'), ('a', '\x07'), ('b', '\x08'), ('t', '\t'), ('\t', '\t'), ('n', '\n'), ('v', '\x0b'),
   ('f', '\x0c'), ('r', '\r'), ('e', '\x1b'), (' ', ' '), ('"', '"'), ('/', '/'), ('\\', '\\'),
   ('N', '\u0085'), ('_', '\u00a0'), ('L', '\u2028'), ('P', '\u2029')]

def escapeWidths : List (Char × Nat) := [('x', 2), ('u', 4), ('U', 8)]

/-- The escape after a backslash: its character, and how many characters it takes. -/
def escape? : List Char → Option (Char × Nat)
  | [] => none
  | c :: rest =>
      match simpleEscapes.lookup c with
      | some e => some (e, 1)
      | none => do
          let width ← escapeWidths.lookup c
          guard (width ≤ rest.length)
          let n ← natural? 16 (rest.take width)
          if h : n.isValidChar then some (Char.ofNatAux n h, width + 1) else none

/-- The characters up to a gap or the closing quote, last one first, and whether an
escaped break ends them. -/
def quotedWord (quote : Char) : Nat → List Char → Cursor → Option (List Char × Bool × Cursor)
  | 0, word, c => some (word, false, c)
  | fuel + 1, word, c =>
      match c.rest with
      | [] => some (word, false, c)
      | ch :: rest =>
          if isGap ch then some (word, false, c)
          else if quote = '\'' ∧ ch = '\'' ∧ rest.head? = some '\'' then
            quotedWord quote fuel ('\'' :: word) (c.skip 2)
          else if ch = quote then some (word, false, c)
          else if quote = '"' ∧ ch = '\\' then
            if rest.head?.any isBreak then some (word, true, (c.skip 1).skipBreak)
            else do
              let (e, width) ← escape? rest
              quotedWord quote fuel (e :: word) (c.skip (width + 1))
          else quotedWord quote fuel (ch :: word) (c.skip 1)

/-- The text up to the closing quote, last character first. -/
def quotedText (quote : Char) : Nat → List Char → Cursor → Option (List Char × Cursor)
  | 0, _, _ => none
  | fuel + 1, text, c =>
      if c.atDocumentMark || c.rest.isEmpty then none
      else do
        let (text, escaped, c) ← quotedWord quote c.rest.length text c
        if c.next (· == quote) then some (text, c.skip 1)
        else do
          let (gap, c) ← Gap.read 0 c.rest.length (.start escaped) c
          quotedText quote fuel (gap.text.reverse ++ text) c

def quoted? (quote : Char) (c : Cursor) : Option (List Char × Cursor) :=
  (quotedText quote (c.rest.length + 1) [] (c.skip 1)).map fun r => (r.1.reverse, r.2)

/-- Whether a plain scalar ends here: at a colon before a gap, and inside brackets at
their marks. -/
def endsPlain (inFlow : Bool) (ch : Char) (rest : List Char) : Bool :=
  (ch == ':' && gapNext rest) || (inFlow && isFlowMark ch)

/-- Inside brackets a colon must not touch one of their marks. -/
def clashes (inFlow : Bool) (ch : Char) (rest : List Char) : Bool :=
  inFlow && ch == ':' && rest.head?.any fun d => isFlowMark d || d == '?'

def plainWord (inFlow : Bool) : Nat → List Char → Cursor → Option (List Char × Cursor)
  | 0, word, c => some (word, c)
  | fuel + 1, word, c =>
      match c.rest with
      | [] => some (word, c)
      | ch :: rest =>
          if isGap ch then some (word, c)
          else if clashes inFlow ch rest then none
          else if endsPlain inFlow ch rest then some (word, c)
          else plainWord inFlow fuel (ch :: word) (c.skip 1)

/-- The words of a plain scalar, last character first, and whether a break follows the
last one. Outside of brackets its lines are indented by at least `indent`. -/
def plainText (inFlow : Bool) (indent : Nat) : Nat → List Char → Gap → Cursor → Option (List Char × Bool × Cursor)
  | 0, text, gap, c => some (text, gap.broken, c)
  | fuel + 1, text, gap, c =>
      if c.atDocumentMark || c.next (· == '#') then some (text, gap.broken, c)
      else do
        let (word, after) ← plainWord inFlow c.rest.length [] c
        if word.isEmpty then some (text, gap.broken, after)
        else
          let text := word ++ (gap.text.reverse ++ text)
          if !after.next isGap then some (text, false, after)
          else do
            let (gap, c) ← Gap.read indent after.rest.length (.start false) after
            if !inFlow ∧ c.column < indent then some (text, gap.broken, c)
            else plainText inFlow indent fuel text gap c

/-- A plain scalar, and whether it ends with a line break. -/
def plain? (inFlow : Bool) (indent : Nat) (c : Cursor) : Option (List Char × Bool × Cursor) :=
  (plainText inFlow indent (c.rest.length + 1) [] (.start false) c).map fun r => (r.1.reverse, r.2)

end ChangeReport.Yaml
