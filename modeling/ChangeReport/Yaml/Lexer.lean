import ChangeReport.Yaml.Block
import ChangeReport.Yaml.Quoted
import ChangeReport.Yaml.Token

/-! Cutting YAML text into tokens. A key of a mapping is only known as a key when its
colon is met: the place before every scalar or collection that could be one is remembered,
and the tokens that open the mapping and mark the key are put in there later. -/
namespace ChangeReport.Yaml

/-- A place where a key may begin. A required one must turn out to be a key. -/
structure KeyPlace where
  required : Bool
  position : Nat
  index : Nat
  line : Nat
  column : Nat

/-- Tokens are kept last one first, with their number in `count`. `keys` holds the
possible key of every open bracket and of the block around them, innermost first. -/
structure Lexer where
  cursor : Cursor
  indent : Int
  indents : List Int
  flow : Nat
  keyAllowed : Bool
  keys : List (Option KeyPlace)
  tokens : List Token
  count : Nat

namespace Lexer

def start (cs : List Char) : Lexer := ⟨.start cs, -1, [], 0, true, [none], [], 0⟩

def inFlow (l : Lexer) : Bool := l.flow != 0

def emit (t : Token) (l : Lexer) : Lexer := { l with tokens := t :: l.tokens, count := l.count + 1 }

def insertAt (position : Nat) (t : Token) (l : Lexer) : Lexer :=
  let later := l.tokens.take (l.count - position)
  let earlier := l.tokens.drop (l.count - position)
  { l with tokens := later ++ t :: earlier, count := l.count + 1 }

/-- Opens a collection of lines at a column that is further in, at the end or at an
earlier position. -/
def openBlock (column : Nat) (position : Option Nat) (t : Token) (l : Lexer) : Lexer :=
  if l.inFlow || !(l.indent < column) then l
  else
    let l := { l with indents := l.indent :: l.indents, indent := column }
    match position with
    | some p => l.insertAt p t
    | none => l.emit t

/-- Closes the collections of lines that are further in than a column. -/
def closeBlocks (column : Int) : Nat → Lexer → Lexer
  | 0, l => l
  | fuel + 1, l =>
      if l.inFlow || !(column < l.indent) then l
      else
        let l := l.emit .blockEnd
        closeBlocks column fuel { l with indent := l.indents.headD (-1), indents := l.indents.drop 1 }

def unindent (column : Int) (l : Lexer) : Lexer := l.closeBlocks column (l.indents.length + 1)

def dropKey? (l : Lexer) : Option Lexer :=
  match l.keys with
  | some k :: rest => if k.required then none else some { l with keys := none :: rest }
  | _ => some l

def saveKey? (l : Lexer) : Option Lexer :=
  if !l.keyAllowed then some l
  else do
    let required := !l.inFlow && l.indent == l.cursor.column
    let l' ← l.dropKey?
    return { l' with keys := some ⟨required, l.count, l.cursor.index, l.cursor.line, l.cursor.column⟩ :: l'.keys.drop 1 }

/-- A key ends on its line and has at most this many characters. -/
def maxKeyLength : Nat := 1024

def isStale (c : Cursor) (k : KeyPlace) : Bool := k.line < c.line || k.index + maxKeyLength < c.index

def dropStale? (l : Lexer) : Option Lexer := do
  let keys ← l.keys.mapM fun place => match place with
    | some k => if isStale l.cursor k then if k.required then none else some none else some (some k)
    | none => some none
  return { l with keys }

/-- Steps over blanks, comments and breaks to the next token. Tabs are blanks only where
no key can begin. -/
def skipGaps : Nat → Lexer → Lexer
  | 0, l => l
  | fuel + 1, l =>
      let c := if l.cursor.index = 0 ∧ l.cursor.next (· == '\uFEFF') then l.cursor.skip 1 else l.cursor
      let c := (c.span fun ch => ch == ' ' || ((l.inFlow || !l.keyAllowed) && ch == '\t')).2
      let c := c.skipComment
      if c.next isBreak then
        skipGaps fuel { l with cursor := c.skipBreak, keyAllowed := l.keyAllowed || !l.inFlow }
      else { l with cursor := c }

def take (n : Nat) (t : Token) (l : Lexer) : Lexer := { l with cursor := l.cursor.skip n }.emit t

def streamEnd? (l : Lexer) : Option Lexer := do
  let l ← (l.unindent (-1)).dropKey?
  return { l with keyAllowed := false }.emit .streamEnd

def directive? (l : Lexer) : Option Lexer := do
  let l ← (l.unindent (-1)).dropKey?
  let (t, cursor) ← Yaml.directive? l.cursor
  return { l with keyAllowed := false, cursor }.emit t

def documentMark? (t : Token) (l : Lexer) : Option Lexer := do
  let l ← (l.unindent (-1)).dropKey?
  return { l with keyAllowed := false }.take 3 t

def openFlow? (t : Token) (l : Lexer) : Option Lexer := do
  let l ← l.saveKey?
  return { l with keys := none :: l.keys, flow := l.flow + 1, keyAllowed := true }.take 1 t

def closeFlow? (t : Token) (l : Lexer) : Option Lexer := do
  let l ← l.dropKey?
  let l := if l.inFlow then { l with keys := l.keys.drop 1, flow := l.flow - 1 } else l
  return { l with keyAllowed := false }.take 1 t

def flowEntry? (l : Lexer) : Option Lexer := do
  let l ← l.dropKey?
  return { l with keyAllowed := true }.take 1 .flowEntry

def blockEntry? (l : Lexer) : Option Lexer := do
  guard (l.inFlow || l.keyAllowed)
  let l ← (l.openBlock l.cursor.column none .blockSequenceStart).dropKey?
  return { l with keyAllowed := true }.take 1 .blockEntry

def key? (l : Lexer) : Option Lexer := do
  guard (l.inFlow || l.keyAllowed)
  let l ← (l.openBlock l.cursor.column none .blockMappingStart).dropKey?
  return { l with keyAllowed := !l.inFlow }.take 1 .key

/-- A colon: behind a possible key it makes that one a key, otherwise it follows a key on
lines of its own. -/
def value? (l : Lexer) : Option Lexer :=
  match l.keys with
  | some k :: rest =>
      let l := (l.insertAt k.position .key).openBlock k.column (some k.position) .blockMappingStart
      some ({ l with keys := none :: rest, keyAllowed := false }.take 1 .value)
  | _ => do
      guard (l.inFlow || l.keyAllowed)
      let l := l.openBlock l.cursor.column none .blockMappingStart
      return { l with keyAllowed := !l.inFlow }.take 1 .value

/-- A token that can begin a key, read by `read`. -/
def content? (read : Cursor → Option (Token × Cursor)) (l : Lexer) : Option Lexer := do
  let l ← l.saveKey?
  let (t, cursor) ← read l.cursor
  return { l with keyAllowed := false, cursor }.emit t

def block? (l : Lexer) : Option Lexer := do
  let l ← l.dropKey?
  let (text, cursor) ← Yaml.block? l.indent l.cursor
  return { l with keyAllowed := true, cursor }.emit (.scalar false text)

def plain? (l : Lexer) : Option Lexer := do
  let l ← l.saveKey?
  let (text, broken, cursor) ← Yaml.plain? l.inFlow (l.indent + 1).toNat l.cursor
  return { l with keyAllowed := broken, cursor }.emit (.scalar true text)

def notPlain : List Char :=
  ['-', '?', ':', ',', '[', ']', '\x7b', '\x7d', '#', '&', '*', '!', '|', '>', '\'', '"', '%', '@', '\x60']

def beginsPlain (inFlow : Bool) (ch : Char) (rest : List Char) : Bool :=
  !(isGap ch || notPlain.contains ch) || (ch == '-' && !rest.head?.any isBlank) ||
    (!inFlow && (ch == '?' || ch == ':') && !gapNext rest)

def step? (l : Lexer) : Option Lexer := do
  let l ← (l.skipGaps (l.cursor.rest.length + 1)).dropStale?
  let l := l.unindent l.cursor.column
  let c := l.cursor
  match c.rest with
  | [] => l.streamEnd?
  | ch :: rest =>
      if c.column = 0 ∧ ch = '%' then l.directive?
      else if c.atMark '-' then l.documentMark? .documentStart
      else if c.atMark '.' then l.documentMark? .documentEnd
      else if ch = '[' then l.openFlow? .flowSequenceStart
      else if ch = '\x7b' then l.openFlow? .flowMappingStart
      else if ch = ']' then l.closeFlow? .flowSequenceEnd
      else if ch = '\x7d' then l.closeFlow? .flowMappingEnd
      else if ch = ',' then l.flowEntry?
      else if ch = '-' ∧ gapNext rest then l.blockEntry?
      else if ch = '?' ∧ (l.inFlow || gapNext rest) then l.key?
      else if ch = ':' ∧ (l.inFlow || gapNext rest) then l.value?
      else if ch = '*' then l.content? fun c => (anchorName? c).map fun r => (.alias r.1, r.2)
      else if ch = '&' then l.content? fun c => (anchorName? c).map fun r => (.anchor r.1, r.2)
      else if ch = '!' then l.content? (tag? l.inFlow)
      else if (ch = '|' ∨ ch = '>') ∧ !l.inFlow then l.block?
      else if ch = '\'' ∨ ch = '"' then
        l.content? fun c => (quoted? ch c).map fun r => (.scalar false r.1, r.2)
      else if beginsPlain l.inFlow ch rest then l.plain?
      else none

def run : Nat → Lexer → Option (List Token)
  | 0, _ => none
  | fuel + 1, l => do
      let l ← l.step?
      if l.tokens.head? = some .streamEnd then return l.tokens.reverse else run fuel l

end Lexer

def isAllowed (c : Char) : Bool := c == '\t' || c == '\r' || c == '\u0085' || c == '\uFEFF' || isPrintable c

/-- The tokens of a text. Every token but the last takes a character at least. -/
def tokens? (s : String) : Option (List Token) :=
  let cs := s.toList
  if cs.all isAllowed then (Lexer.start cs).run (cs.length + 1) else none

end ChangeReport.Yaml
