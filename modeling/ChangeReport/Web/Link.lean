import ChangeReport.Text.Blank
import ChangeReport.Text.Split

/-! The header that tells of further pages: links with parameters, separated by commas. -/
namespace ChangeReport.Web

def nextParameter : List Char := "rel=\"next\"".toList

/-- Whether one part of the header has the parameter. What stands before the first
semicolon is the link itself. -/
def isNext (part : List Char) : Bool :=
  ((Text.splitChars ';' part).drop 1).any fun p => Text.trimChars p == nextParameter

def hasNextLink (header : List Char) : Bool := (Text.splitChars ',' header).any isNext

end ChangeReport.Web
