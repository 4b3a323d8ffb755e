/-! The lines of a text, each with its end: a line feed, a carriage return, or both. -/
namespace ChangeReport.LineDiff

abbrev Line := List Char

def isLineEnd (c : Char) : Bool := c == '\n' || c == '\r'

def consLine (c : Char) : List Line → List Line
  | [] => [[c]]
  | line :: rest => (c :: line) :: rest

def lines : List Char → List Line
  | [] => []
  | '\r' :: '\n' :: rest => ['\r', '\n'] :: lines rest
  | c :: rest => if isLineEnd c then [c] :: lines rest else consLine c (lines rest)

/-- Whether a line has its end; only the last one may lack it. -/
def isEnded (line : Line) : Bool := line.getLast?.any isLineEnd

theorem flatten_consLine (c : Char) (ls : List Line) : (consLine c ls).flatten = c :: ls.flatten := by
  cases ls <;> simp [consLine]

theorem flatten_lines (cs : List Char) : (lines cs).flatten = cs := by
  fun_induction lines cs with
  | case1 => rfl
  | case2 rest ih => simp [ih]
  | case3 c rest _ _ ih => simp [ih]
  | case4 c rest _ _ ih => simp [flatten_consLine, ih]

end ChangeReport.LineDiff
