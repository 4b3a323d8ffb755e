import ChangeReport.Text.Blank

/-! Environment variables. -/
namespace ChangeReport

/-- The variables that are set, each once. -/
abbrev Environment := List (String × String)

namespace Environment

def var? (env : Environment) (name : String) : Option String := env.lookup name

/-- The trimmed value of the first of these variables that is set and not blank. -/
def firstOf? (env : Environment) (names : List String) : Option String :=
  ((names.filterMap env.var?).map Text.trim).find? (· ≠ "")

end Environment
end ChangeReport
