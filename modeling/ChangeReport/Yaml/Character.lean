/-! Character classes of YAML text. -/
namespace ChangeReport.Yaml

def isBreak (c : Char) : Bool :=
  c == '\n' || c == '\r' || c == '\u0085' || c == '\u2028' || c == '\u2029'

def isBlank (c : Char) : Bool := c == ' ' || c == '\t'

/-- A blank, a break, or the mark that ends a text. -/
def isGap (c : Char) : Bool := isBlank c || isBreak c || c == '\x00'

def gapNext : List Char → Bool
  | [] => true
  | c :: _ => isGap c

/-- The characters that are written as they are; others are written as escapes. -/
def isPrintable (c : Char) : Bool :=
  let n := c.toNat
  n == 0x0A || (0x20 ≤ n && n ≤ 0x7E) || (0xA0 ≤ n && n ≤ 0xD7FF) ||
    (0xE000 ≤ n && n ≤ 0xFFFD && n != 0xFEFF) || 0x10000 ≤ n

/-- The marks that structure a collection written in brackets. -/
def isFlowMark (c : Char) : Bool := c == ',' || c == '[' || c == ']' || c == '\x7b' || c == '\x7d'

end ChangeReport.Yaml
