import ChangeReport.Assoc
import ChangeReport.Text.Bytes
import ChangeReport.Text.Split

/-! The body of a report comment: a title, the identity of the reporter, a link, and one
section for each application. A body that is too long is cut, and what the cut leaves open
is closed. -/
namespace ChangeReport.Report

def title : String := "## Kubernetes Changes Report"

def separator : String := "\n\n---\n\n"

/-- Hosts refuse bodies over 65536 characters. -/
def defaultMaxLength : Nat := 65000

def passIndicator : String := ":white_check_mark:"

def failIndicator : String := ":red_circle:"

def errorMarker : String := ":red_circle:"

def warningMarker : String := ":warning:"

/-- What a section without text shows. -/
def pending : String := "_Diff in progress..._"

/-- The fixed parts of a body; `maxLength` counts bytes. -/
structure Layout where
  identity : Option String
  pipelineUrl : Option String
  maxLength : Nat
deriving DecidableEq, Repr

def Layout.default : Layout := ⟨none, none, defaultMaxLength⟩

/-- The sections by application, in the order of their names. -/
abbrev Sections := List (String × String)

def isIndent (c : Char) : Bool := c == ' ' || c == '\t'

/-- A line that begins with a marker, after blanks and tabs. -/
def isMarked (line : List Char) : Bool :=
  let text := line.dropWhile isIndent
  Text.startsWith errorMarker.toList text || Text.startsWith warningMarker.toList text

/-- Whether a section tells of a failure or a warning: one of its lines is marked. -/
def isFailure (body : String) : Bool := (Text.splitChars '\n' body.toList).any isMarked

def indicator (body : String) : String := if isFailure body then failIndicator else passIndicator

def block (app body : String) : String :=
  "\n<details><summary>" ++ indicator body ++ " <b>" ++ app ++ "</b></summary>\n\n" ++
    (if body = "" then pending else body) ++ "\n\n</details>\n"

def identityLine (identity : String) : String := "_" ++ identity ++ "_"

def head (layout : Layout) : String :=
  title ++ "\n" ++
    (match layout.identity with
      | some identity => identityLine identity ++ "\n"
      | none => "") ++
    (match layout.pipelineUrl with
      | some url => "\n[View pipeline](" ++ url ++ ")\n"
      | none => "")

def foot (trailer : String) : String := if trailer = "" then "" else "\n" ++ trailer ++ "\n"

/-- The body at its full length. -/
def compose (layout : Layout) (sections : Sections) (trailer : String) : String :=
  head layout ++ String.join (sections.map fun s => block s.1 s.2) ++ foot trailer

def fence : List Char := ['\x60', '\x60', '\x60']

def openTag : List Char := "<details>".toList

def closeTag : List Char := "</details>".toList

/-- Markup that closes what a text leaves open: a fence, and blocks of details. -/
def closing (cs : List Char) : List Char :=
  let fences := Text.occurrences fence cs
  let blocks := Text.occurrences openTag cs - Text.occurrences closeTag cs
  (if fences % 2 = 1 then '\n' :: fence else []) ++
    (List.replicate blocks ('\n' :: '\n' :: closeTag)).flatten

def truncationNote (max : Nat) : String :=
  "\n\n" ++ warningMarker ++ " Report truncated: the full report exceeds " ++ toString max ++ " characters."

/-- The longest start of at most `cut` bytes that fits in `max` with its closing markup
and `note`. Where it does not fit, the start becomes shorter by what is too much. -/
def cutTo (max : Nat) (note body : List Char) (cut : Nat) : List Char :=
  let start := Text.takeBytes cut body
  let size := Text.byteLength start
  let total := size + Text.byteLength (closing start) + Text.byteLength note
  if _fits : total ≤ max ∨ size = 0 then start ++ closing start ++ note
  else cutTo max note body (size - (total - max))
termination_by cut
decreasing_by
  have bound : size ≤ cut := Text.takeBytes_length_le cut body
  have long : max < total := by simp only [not_or, Nat.not_le] at _fits; exact _fits.1
  have some : 0 < size := by simp only [not_or] at _fits; exact Nat.pos_of_ne_zero _fits.2
  show size - (total - max) < cut
  clear_value total size
  omega

/-- A body of at most `max` bytes as far as the note allows it. -/
def truncate (max : Nat) (body : String) : String :=
  if Text.byteLength body.toList ≤ max then body
  else
    let note := (truncationNote max).toList
    String.ofList (cutTo max note body.toList (max - Text.byteLength note))

def build (layout : Layout) (sections : Sections) (trailer : String) : String :=
  truncate layout.maxLength (compose layout sections trailer)

/-- Adds a fragment to a text; a separator keeps it from what is there. -/
def append (text fragment : String) : String :=
  if text = "" then fragment else text ++ separator ++ fragment

end ChangeReport.Report
