import ChangeReport.Comment
import ChangeReport.Host.Error

/-! Hosts of change requests: what can be asked of one. A call takes the state of the host
and returns its answer with the next state. -/
namespace ChangeReport

inductive HostKind where
  | github
  | gitlab
deriving DecidableEq, Repr

namespace HostKind

def name : HostKind → String
  | .github => "github"
  | .gitlab => "gitlab"

def ofName? (s : String) : Option HostKind :=
  let folded := s.toList.map Char.toLower
  if folded = "github".toList then some .github
  else if folded = "gitlab".toList then some .gitlab
  else none

def tokenVariable : HostKind → String
  | .github => "GITHUB_TOKEN"
  | .gitlab => "GITLAB_TOKEN"

def publicUrl : HostKind → String
  | .github => "https://api.github.com"
  | .gitlab => "https://gitlab.com/api/v4"

end HostKind

/-- A call in the state `σ` of a host. -/
abbrev Call (σ α : Type) := σ → Except HostError α × σ

namespace Call

variable {σ α β : Type}

def answer (a : α) : Call σ α := fun s => (.ok a, s)

def map (f : α → β) (call : Call σ α) : Call σ β := fun s => ((call s).1.map f, (call s).2)

end Call

/-- A host: `edit` returns the id that the comment has afterwards, pages of `list` are
counted from one, and `pipelineUrl` is the address of the latest pipeline, if there is
one. -/
structure Host (σ : Type) where
  kind : HostKind
  username : Call σ String
  create : ChangeRequest → String → Call σ Nat
  edit : ChangeRequest → Nat → String → Call σ Nat
  list : ChangeRequest → Nat → Call σ Page
  delete : ChangeRequest → Nat → Call σ Unit
  pipelineUrl : ChangeRequest → Call σ (Option String)

end ChangeReport
