import ChangeReport.Config.Basic
import ChangeReport.Host.Github
import ChangeReport.Host.Gitlab
import ChangeReport.Text.Quoted

/-! The host that a configuration names. -/
namespace ChangeReport.Host
open Web

/-- The token of a configuration; it must be there and fit into a header. -/
def token (vcs : VcsConfig) : Except HostError String :=
  match vcs.token.filter (· ≠ "") with
  | none => .error (.missingToken vcs.provider.tokenVariable)
  | some token =>
      if isHeaderValue token then .ok token
      else .error (.decode "token contains invalid header characters")

def baseUrl (vcs : VcsConfig) : String := vcs.baseUrl.getD vcs.provider.publicUrl

def ofConfig {τ : Type} (t : Transport τ) (vcs : VcsConfig) : Except HostError (Host τ) :=
  (token vcs).map fun token =>
    match vcs.provider with
    | .github => Github.host t (Github.client (baseUrl vcs) token) vcs.username
    | .gitlab => Gitlab.host t (Gitlab.client (baseUrl vcs) token) vcs.username

def optionText (show_ : String → String) : Option String → String
  | some s => "Some(" ++ show_ s ++ ")"
  | none => "None"

def providerText : HostKind → String
  | .github => "Github"
  | .gitlab => "Gitlab"

/-- A configuration as text for logs; the token is not told. -/
def logText (vcs : VcsConfig) : String :=
  "VcsConfig \x7b provider: " ++ providerText vcs.provider ++
    ", base_url: " ++ optionText Text.quoted vcs.baseUrl ++
    ", token: " ++ optionText (fun _ => Text.quoted "[REDACTED]") vcs.token ++
    ", username: " ++ optionText Text.quoted vcs.username ++
    ", max_comment_length: " ++ toString vcs.maxCommentLength ++ " \x7d"

end ChangeReport.Host
