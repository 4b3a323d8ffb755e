import ChangeReport.Comment
import ChangeReport.Report.Body
import ChangeReport.Text.Blank

/-! Telling reports from other comments, and hiding those of earlier runs. A hidden report
keeps its text in a collapsed block, so that it is still known as a report of its
reporter. -/
namespace ChangeReport.Report

/-- The summary of the block around a hidden report begins with this word. -/
def outdatedMarker : String := "OUTDATED"

def hiddenStart : List Char := ("<details><summary><i>" ++ outdatedMarker).toList

def summaryEnd : List Char := "</summary>".toList

def isHiddenText (cs : List Char) : Bool := Text.startsWith hiddenStart (Text.trimStartChars cs)

def isHidden (body : String) : Bool := isHiddenText body.toList

/-- The text inside of a hidden report; any other text without its leading blanks. -/
def unwrap (cs : List Char) : List Char :=
  let body := Text.trimStartChars cs
  if isHiddenText body then
    match Text.cutAt? summaryEnd body with
    | some (_, rest) => Text.trimStartChars rest
    | none => body
  else body

def isIdentityLine (line : List Char) : Bool :=
  2 < Text.byteLength line && line.head? == some '_' && line.getLast? == some '_'

/-- What follows the title: it stands on a line of its own. -/
def afterTitle? (cs : List Char) : Option (List Char) :=
  match Text.afterStart? title.toList cs with
  | some ('\n' :: rest) => some rest
  | some [] => some []
  | _ => none

/-- Whether a body is a report, hidden or not, of the reporter with this identity. A
report without a line for the identity belongs to the reporter without one. -/
def isOwn (body : String) (identity : Option String) : Bool :=
  match afterTitle? (unwrap body.toList) with
  | none => false
  | some rest =>
      let second := Text.trimChars (Text.firstLine rest)
      match identity with
      | some name => second == (identityLine name).toList
      | none => !isIdentityLine second

def age (createdAt : Option Timestamp) : String :=
  match createdAt with
  | some t => "report from " ++ t.renderDate ++ " " ++ t.renderMinute ++ " UTC"
  | none => "report from an earlier run"

def hide (c : Comment) : String :=
  "<details><summary><i>" ++ outdatedMarker ++ ": " ++ age c.createdAt ++ "</i></summary>\n\n" ++ c.body ++
    "\n</details>"

end ChangeReport.Report
